import EntryFlow.Table
import Mathlib.Data.List.Forall2
import Mathlib.Data.List.Induction
import Mathlib.Data.List.Nodup
import Mathlib.Data.List.Perm.Basic

/-!
# Laws of tables

What is found after an entry was set, and which keys there are then. Keys stay free of duplicates,
so that the entries of a table are exactly what can be found in it.

## Main statements

* `Table.find?_set`, `Table.keys_set`: setting a key.
* `Table.find?_eq_some_iff`: found values and entries, where no key stands twice.
* `Table.keys_ofList`, `Table.find?_ofList`: the table of some entries.
* `Table.keys_select`, `Table.find?_select`: the part of a table on some keys.
-/

namespace EntryFlow

/-- What holds after some items were added held before or is due to one of them. -/
theorem of_foldl {σ γ : Type} {f : σ → γ → σ} (mem : σ → Prop) (adds : γ → Prop)
    (hstep : ∀ s x, mem (f s x) → mem s ∨ adds x) (items : List γ) {s : σ}
    (h : mem (items.foldl f s)) : mem s ∨ ∃ x ∈ items, adds x := by
  induction items generalizing s with
  | nil => exact .inl h
  | cons x items ih =>
    rcases ih h with h | ⟨y, hy, hadds⟩
    · exact (hstep s x h).imp_right fun hadds => ⟨x, List.mem_cons_self, hadds⟩
    · exact .inr ⟨y, List.mem_cons_of_mem _ hy, hadds⟩

/-- Where every item adds its part to what holds, all of them add together. -/
theorem iff_foldl {σ γ : Type} {f : σ → γ → σ} (mem : σ → Prop) (adds : γ → Prop)
    (hstep : ∀ s x, mem (f s x) ↔ mem s ∨ adds x) (items : List γ) (s : σ) :
    mem (items.foldl f s) ↔ mem s ∨ ∃ x ∈ items, adds x := by
  induction items generalizing s with
  | nil => simp
  | cons x items ih => simp [ih, hstep, or_assoc]

theorem exists_right_of_forall₂ {α β : Type} {P : α → β → Prop} {xs : List α} {ys : List β}
    (h : List.Forall₂ P xs ys) {x : α} (hx : x ∈ xs) : ∃ y ∈ ys, P x y := by
  induction h with
  | nil => cases hx
  | @cons _ y _ ys hp _ ih =>
    rcases List.mem_cons.mp hx with rfl | hx
    · exact ⟨y, List.mem_cons_self, hp⟩
    · obtain ⟨z, hz, hpz⟩ := ih hx
      exact ⟨z, List.mem_cons_of_mem _ hz, hpz⟩

theorem exists_left_of_forall₂ {α β : Type} {P : α → β → Prop} {xs : List α} {ys : List β}
    (h : List.Forall₂ P xs ys) {y : β} (hy : y ∈ ys) : ∃ x ∈ xs, P x y :=
  exists_right_of_forall₂ (List.Forall₂.flip (R := flip P) h) hy

namespace Table

variable {α β : Type}

@[simp] theorem keys_nil : keys ([] : Table α β) = [] := rfl

@[simp] theorem keys_cons (e : α × β) (table : Table α β) :
    keys (e :: table) = e.1 :: table.keys := rfl

variable [DecidableEq α]

@[simp] theorem find?_nil (key : α) : find? ([] : Table α β) key = none := rfl

@[simp] theorem find?_cons (e : α × β) (table : Table α β) (key : α) :
    find? (e :: table) key = if e.1 = key then some e.2 else table.find? key := rfl

/-! ## What is found -/

@[simp] theorem find?_append (table rest : Table α β) (key : α) :
    find? (table ++ rest) key = (table.find? key).or (find? rest key) := by
  induction table with
  | nil => rfl
  | cons e table ih =>
    by_cases hk : e.1 = key <;> simp [hk, ih]

@[simp] theorem find?_set (table : Table α β) (key other : α) (value : β) :
    (table.set key value).find? other = if key = other then some value else table.find? other := by
  induction table with
  | nil => rfl
  | cons e table ih =>
    obtain ⟨k, v⟩ := e
    by_cases hk : k = key
    · subst hk
      by_cases ho : k = other <;> simp [set, ho]
    · by_cases ho : k = other
      · have hne : key ≠ other := fun h => hk (ho.trans h.symm)
        simp [set, ho, hne, Ne.symm hne]
      · simp [set, hk, ho, ih]

theorem mem_of_find? {table : Table α β} {key : α} {value : β}
    (h : table.find? key = some value) : (key, value) ∈ table := by
  induction table with
  | nil => simp at h
  | cons e table ih =>
    obtain ⟨k, v⟩ := e
    by_cases hk : k = key
    · simp_all
    · exact List.mem_cons_of_mem _ (ih (by simpa [hk] using h))

theorem mem_keys_iff {table : Table α β} {key : α} :
    key ∈ table.keys ↔ ∃ value, table.find? key = some value := by
  induction table with
  | nil => simp
  | cons e table ih =>
    obtain ⟨k, v⟩ := e
    by_cases hk : k = key
    · simp [hk]
    · simp [hk, Ne.symm hk, ih]

theorem find?_eq_none_iff {table : Table α β} {key : α} :
    table.find? key = none ↔ key ∉ table.keys := by
  rw [mem_keys_iff, Option.eq_none_iff_forall_ne_some, not_exists]

theorem has_iff {table : Table α β} {key : α} : table.has key = true ↔ key ∈ table.keys := by
  rw [mem_keys_iff, has, Option.isSome_iff_exists]

theorem find?_setNew (table : Table α β) (key other : α) (value : β) :
    (table.setNew key value).find? other =
      (table.find? other).or (if key = other then some value else none) := by
  rw [setNew]
  split
  · rename_i hkey
    by_cases ho : key = other
    · obtain ⟨old, hold⟩ := mem_keys_iff.mp (has_iff.mp hkey)
      simp [← ho, hold]
    · simp [ho]
  · simp

/-- Where no key stands twice, the entries are what can be found. -/
theorem find?_eq_some_iff {table : Table α β} (h : table.keys.Nodup) {key : α} {value : β} :
    table.find? key = some value ↔ (key, value) ∈ table := by
  refine ⟨mem_of_find?, fun hmem => ?_⟩
  induction table with
  | nil => cases hmem
  | cons e table ih =>
    obtain ⟨hnew, hrest⟩ := List.nodup_cons.mp h
    rcases List.mem_cons.mp hmem with rfl | hmem
    · simp
    · have hne : e.1 ≠ key := fun he => hnew (he ▸ List.mem_map_of_mem hmem)
      rw [find?_cons, if_neg hne]
      exact ih hrest hmem

/-- Where no key stands twice, the values are those of the keys in order. -/
theorem filterMap_find?_keys {table : Table α β} (h : table.keys.Nodup) :
    table.keys.filterMap table.find? = table.values := by
  induction table with
  | nil => rfl
  | cons e table ih =>
    obtain ⟨hnew, hrest⟩ := List.nodup_cons.mp h
    have hlater : ∀ key ∈ keys table, find? (e :: table) key = find? table key := by
      intro key hkey
      rw [find?_cons, if_neg]
      rintro rfl
      exact hnew hkey
    rw [keys_cons, List.filterMap_cons_some (by rw [find?_cons, if_pos rfl]),
      List.filterMap_congr hlater, ih hrest]
    rfl

/-! ## Setting an entry -/

theorem keys_set (table : Table α β) (key : α) (value : β) :
    (table.set key value).keys = if key ∈ table.keys then table.keys else table.keys ++ [key] := by
  induction table with
  | nil => rfl
  | cons e table ih =>
    obtain ⟨k, v⟩ := e
    by_cases hk : k = key
    · simp [set, hk]
    · by_cases hmem : key ∈ keys table <;> simp [set, hk, Ne.symm hk, ih, hmem]

theorem keys_setNew (table : Table α β) (key : α) (value : β) :
    (table.setNew key value).keys =
      if key ∈ table.keys then table.keys else table.keys ++ [key] := by
  by_cases hkey : table.has key = true
  · rw [setNew, if_pos hkey, if_pos (has_iff.mp hkey)]
  · rw [setNew, if_neg hkey, if_neg fun hmem => hkey (has_iff.mpr hmem)]
    simp [keys]

/-- A key that enters a list of keys only if it is new leaves no key twice. -/
theorem nodup_enter {keys : List α} (h : keys.Nodup) (key : α) :
    (if key ∈ keys then keys else keys ++ [key]).Nodup := by
  split
  · exact h
  · rename_i hnew
    refine List.nodup_append.mpr ⟨h, by simp, ?_⟩
    rintro other hother _ hkey rfl
    exact hnew (List.mem_singleton.mp hkey ▸ hother)

theorem nodup_keys_set {table : Table α β} (h : table.keys.Nodup) (key : α) (value : β) :
    (table.set key value).keys.Nodup := by
  rw [keys_set]
  exact nodup_enter h key

theorem nodup_keys_setNew {table : Table α β} (h : table.keys.Nodup) (key : α) (value : β) :
    (table.setNew key value).keys.Nodup := by
  rw [keys_setNew]
  exact nodup_enter h key

theorem mem_keys_set {table : Table α β} {key other : α} {value : β} :
    other ∈ (table.set key value).keys ↔ other ∈ table.keys ∨ key = other := by
  rw [keys_set]
  split
  · rename_i hmem
    refine ⟨.inl, ?_⟩
    rintro (h | rfl)
    · exact h
    · exact hmem
  · simp [eq_comm]

theorem mem_keys_setNew {table : Table α β} {key other : α} {value : β} :
    other ∈ (table.setNew key value).keys ↔ other ∈ table.keys ∨ key = other := by
  rw [keys_setNew, ← keys_set table key value]
  exact mem_keys_set

theorem mem_set {table : Table α β} {key : α} {value : β} {e : α × β}
    (h : e ∈ table.set key value) : e ∈ table ∨ e = (key, value) := by
  induction table with
  | nil => exact .inr (by simpa [set] using h)
  | cons first table ih =>
    obtain ⟨k, v⟩ := first
    by_cases hk : k = key
    · rcases List.mem_cons.mp (by simpa [set, hk] using h) with rfl | h
      · exact .inr rfl
      · exact .inl (List.mem_cons_of_mem _ h)
    · rcases List.mem_cons.mp (by simpa [set, hk] using h) with rfl | h
      · exact .inl List.mem_cons_self
      · exact (ih h).imp_left (List.mem_cons_of_mem _)

theorem mem_setNew {table : Table α β} {key : α} {value : β} {e : α × β}
    (h : e ∈ table.setNew key value) : e ∈ table ∨ e = (key, value) := by
  rw [setNew] at h
  split at h
  · exact .inl h
  · exact (List.mem_append.mp h).imp_right (by simp)

theorem set_of_not_mem {table : Table α β} {key : α} (h : key ∉ table.keys) (value : β) :
    table.set key value = table ++ [(key, value)] := by
  induction table with
  | nil => rfl
  | cons e table ih =>
    obtain ⟨k, v⟩ := e
    simp only [keys_cons, List.mem_cons, not_or] at h
    rw [set, if_neg (Ne.symm h.1), ih h.2, List.cons_append]

theorem setNew_of_not_mem {table : Table α β} {key : α} (h : key ∉ table.keys) (value : β) :
    table.setNew key value = table ++ [(key, value)] := by
  rw [setNew, if_neg fun hhas => h (has_iff.mp hhas)]

/-! ## Tables with the same entries -/

theorem perm_of_find?_eq {table other : Table α β} (ht : table.keys.Nodup) (ho : other.keys.Nodup)
    (h : ∀ key, table.find? key = other.find? key) : table.Perm other := by
  refine (List.perm_ext_iff_of_nodup (List.Nodup.of_map _ ht)
    (List.Nodup.of_map _ ho)).mpr fun e => ?_
  rw [← find?_eq_some_iff ht, ← find?_eq_some_iff ho, h]

/-- Where no key stands twice, the order of the entries does not matter. -/
theorem find?_eq_of_perm {table other : Table α β} (h : table.Perm other)
    (hnodup : table.keys.Nodup) (key : α) : table.find? key = other.find? key := by
  have hother : other.keys.Nodup := (h.map Prod.fst).nodup_iff.mp hnodup
  refine Option.ext fun value => ?_
  rw [find?_eq_some_iff hnodup, find?_eq_some_iff hother, h.mem_iff]

theorem eq_of_find?_eq {table other : Table α β} (hkeys : table.keys = other.keys)
    (hnodup : table.keys.Nodup) (h : ∀ key, table.find? key = other.find? key) :
    table = other := by
  induction table generalizing other with
  | nil => exact (List.map_eq_nil_iff.mp hkeys.symm).symm
  | cons e table ih =>
    cases other with
    | nil => cases hkeys
    | cons f other =>
      obtain ⟨hfirst, hrest⟩ := List.cons.inj hkeys
      obtain ⟨hnew, hnodup⟩ := List.nodup_cons.mp hnodup
      have hvalue := h e.1
      simp only [find?_cons, if_pos hfirst.symm, if_true, Option.some.injEq] at hvalue
      refine List.cons_eq_cons.mpr ⟨Prod.ext hfirst hvalue, ih hrest hnodup fun key => ?_⟩
      by_cases hkey : e.1 = key
      · subst hkey
        have hnew' : e.1 ∉ keys other := by rwa [keys, ← hrest]
        rw [find?_eq_none_iff.mpr hnew, find?_eq_none_iff.mpr hnew']
      · have hkeys := h key
        rwa [find?_cons, find?_cons, if_neg hkey, if_neg (hfirst ▸ hkey)] at hkeys

/-! ## Tables of entries -/

section Fold

variable {γ : Type} (entry : γ → α × β) (items : List γ) {table : Table α β}

theorem mem_foldl_set {e : α × β}
    (h : e ∈ items.foldl (fun t x => t.set (entry x).1 (entry x).2) table) :
    e ∈ table ∨ ∃ x ∈ items, e = entry x :=
  of_foldl (fun t => e ∈ t) (fun x => e = entry x) (fun _ _ => mem_set) items h

theorem mem_foldl_setNew {e : α × β}
    (h : e ∈ items.foldl (fun t x => t.setNew (entry x).1 (entry x).2) table) :
    e ∈ table ∨ ∃ x ∈ items, e = entry x :=
  of_foldl (fun t => e ∈ t) (fun x => e = entry x) (fun _ _ => mem_setNew) items h

theorem mem_keys_foldl_set {key : α} :
    key ∈ (items.foldl (fun t x => t.set (entry x).1 (entry x).2) table).keys ↔
      key ∈ table.keys ∨ ∃ x ∈ items, (entry x).1 = key :=
  iff_foldl (fun t => key ∈ keys t) (fun x => (entry x).1 = key) (fun _ _ => mem_keys_set) items
    table

theorem nodup_keys_foldl_set (h : table.keys.Nodup) :
    (items.foldl (fun t x => t.set (entry x).1 (entry x).2) table).keys.Nodup := by
  induction items generalizing table with
  | nil => exact h
  | cons x items ih => exact ih (nodup_keys_set h _ _)

theorem nodup_keys_foldl_setNew (h : table.keys.Nodup) :
    (items.foldl (fun t x => t.setNew (entry x).1 (entry x).2) table).keys.Nodup := by
  induction items generalizing table with
  | nil => exact h
  | cons x items ih => exact ih (nodup_keys_setNew h _ _)

/-- A key that had no value has that of the first item which enters it. -/
theorem find?_foldl_setNew (key : α) :
    (items.foldl (fun t x => t.setNew (entry x).1 (entry x).2) table).find? key =
      (table.find? key).or ((items.find? fun x => (entry x).1 = key).map fun x => (entry x).2) := by
  induction items generalizing table with
  | nil => simp
  | cons x items ih =>
    rw [List.foldl_cons, ih, find?_setNew, Option.or_assoc]
    by_cases hkey : (entry x).1 = key <;> simp [hkey]

end Fold

theorem mem_of_mem_ofList {entries : List (α × β)} {e : α × β} (h : e ∈ ofList entries) :
    e ∈ entries := by
  rcases mem_foldl_set id entries h with h | ⟨_, hmem, rfl⟩
  · cases h
  · exact hmem

theorem ofList_concat (entries : List (α × β)) (e : α × β) :
    ofList (entries ++ [e]) = (ofList entries).set e.1 e.2 := by
  rw [ofList, List.foldl_append]
  rfl

/-- Entries without a repeated key are a table as they are. -/
theorem ofList_eq_self {entries : List (α × β)} (h : (entries.map Prod.fst).Nodup) :
    ofList entries = entries := by
  induction entries using List.reverseRecOn with
  | nil => rfl
  | append_singleton entries e ih =>
    rw [List.map_append, List.nodup_append] at h
    obtain ⟨hentries, -, hnew⟩ := h
    rw [ofList_concat, ih hentries]
    refine set_of_not_mem (fun hmem => ?_) _
    exact hnew _ hmem _ (List.mem_singleton.mpr rfl) rfl

/-- Of some keys without repetition, a further one is the last if it is new. -/
theorem eraseDups_concat (keys : List α) (key : α) :
    (keys ++ [key]).eraseDups =
      if key ∈ keys.eraseDups then keys.eraseDups else keys.eraseDups ++ [key] := by
  simp only [List.eraseDups_append, List.mem_eraseDups]
  by_cases hkey : key ∈ keys
  · simp [hkey, List.removeAll]
  · simp [hkey, List.removeAll, List.eraseDups_cons]

/-- The keys of a table of entries are those of the entries, each where it comes first. -/
theorem keys_ofList (entries : List (α × β)) :
    (ofList entries).keys = (entries.map Prod.fst).eraseDups := by
  induction entries using List.reverseRecOn with
  | nil => rfl
  | append_singleton entries e ih =>
    rw [ofList_concat, keys_set, List.map_append, List.map_singleton, eraseDups_concat, ih]

/-- The value of a key in a table of entries is that of the last entry with the key. -/
theorem find?_ofList (entries : List (α × β)) (key : α) :
    (ofList entries).find? key = (entries.reverse.find? (·.1 = key)).map Prod.snd := by
  induction entries using List.reverseRecOn with
  | nil => rfl
  | append_singleton entries e ih =>
    rw [ofList_concat, find?_set, List.reverse_append, List.reverse_singleton,
      List.singleton_append, ih]
    by_cases hkey : e.1 = key <;> simp [hkey]

/-! ## Parts of a table -/

theorem select_concat (table : Table α β) (keys : List α) (key : α) :
    table.select (keys ++ [key]) =
      match table.find? key with
      | none => table.select keys
      | some value => (table.select keys).set key value := by
  cases hkey : table.find? key with
  | none => simp [select, hkey]
  | some value => simp [select, hkey, ofList_concat]

/-- A part of a table gives its keys the values that they have in the table. -/
theorem find?_select (table : Table α β) (keys : List α) (key : α) :
    (table.select keys).find? key = if key ∈ keys then table.find? key else none := by
  induction keys using List.reverseRecOn with
  | nil => rfl
  | append_singleton keys last ih =>
    rw [select_concat]
    by_cases hlast : last = key
    · subst hlast
      cases hvalue : table.find? last <;> simp [hvalue, ih]
    · cases hvalue : table.find? last <;> simp [ih, hlast, Ne.symm hlast]

/-- The keys of a part are those that have values, each where it comes first. -/
theorem keys_select (table : Table α β) (keys : List α) :
    (table.select keys).keys = (keys.filter table.has).eraseDups := by
  have hkeys : (keys.filterMap fun key => (table.find? key).map fun value => (key, value)).map
      Prod.fst = keys.filter table.has := by
    induction keys with
    | nil => rfl
    | cons key keys ih => cases hkey : table.find? key <;> simp [has, hkey, ih]
  rw [select, keys_ofList, hkeys]

theorem mem_of_mem_select {table : Table α β} {keys : List α} {e : α × β}
    (h : e ∈ table.select keys) : e ∈ table := by
  obtain ⟨key, -, hentry⟩ := List.mem_filterMap.mp (mem_of_mem_ofList h)
  obtain ⟨value, hvalue, rfl⟩ := Option.map_eq_some_iff.mp hentry
  exact mem_of_find? hvalue

theorem nodup_keys_ofList (entries : List (α × β)) : (ofList entries).keys.Nodup :=
  nodup_keys_foldl_set id entries List.nodup_nil

/-- The table of some entries is its part on their keys. -/
theorem select_ofList (entries : List (α × β)) :
    (ofList entries).select (entries.map Prod.fst) = ofList entries := by
  have hhas : ∀ key ∈ entries.map Prod.fst, (ofList entries).has key = true := by
    intro key hkey
    rw [has_iff, keys_ofList]
    exact List.mem_eraseDups.mpr hkey
  refine eq_of_find?_eq ?_ (nodup_keys_ofList _) fun key => ?_
  · rw [keys_select, List.filter_eq_self.mpr hhas, keys_ofList]
  · rw [find?_select]
    split
    · rfl
    · rename_i hkey
      rw [eq_comm, find?_eq_none_iff, keys_ofList]
      simpa using hkey

/-- The last item that enters a key gives it its value. -/
theorem find?_ofList_map_eq_some_iff {γ : Type} {entry : γ → α × β} {items : List γ} {key : α}
    {value : β} :
    (ofList (items.map entry)).find? key = some value ↔
      ∃ before x after, items = before ++ x :: after ∧ entry x = (key, value) ∧
        ∀ y ∈ after, (entry y).1 ≠ key := by
  rw [find?_ofList, ← List.map_reverse, List.find?_map, Option.map_map, Option.map_eq_some_iff]
  simp only [List.find?_eq_some_iff_append]
  constructor
  · rintro ⟨x, ⟨hkey, after, before, hsplit, hlast⟩, hvalue⟩
    refine ⟨before.reverse, x, after.reverse, ?_, Prod.ext (by simpa using hkey) hvalue, ?_⟩
    · rw [← List.reverse_reverse items, hsplit]
      simp
    · intro y hy
      simpa using hlast y (List.mem_reverse.mp hy)
  · rintro ⟨before, x, after, rfl, hentry, hlast⟩
    refine ⟨x, ⟨by simp [hentry], after.reverse, before.reverse, by simp, ?_⟩, by simp [hentry]⟩
    intro y hy
    simpa using hlast y (List.mem_reverse.mp hy)

end Table

end EntryFlow
