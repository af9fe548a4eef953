import EntryFlow.Proofs.Totality
import Mathlib.Data.List.Chain

/-!
# Inherited methods and fields

A type and its parents form a chain. A parent is declared as a free text, which the index resolves
to a name, so the chain may come back to itself, under any of its names, or leave the index. It ends
before a name that is empty or was passed already, and behind a type that is not indexed or declares
no parent. Methods and fields are looked up along this one chain, nearest type first.

## Main definitions

* `Index.HasParent`: the step from a type to its parent.
* `Index.Ancestry`: the chain of a type, said without the search for it.
* `Index.Nearest`: what the nearest type of a chain has.

## Main statements

* `Index.WellTyped.ancestry_lineage`: the search ends by itself, on cyclic hierarchies too.
* `Index.inherited_nearest_first`: methods and fields along the chain.
-/

namespace EntryFlow.Index

section Definitions

variable (index : Index)

/-- `v` is the name that the declared parent of `u` resolves to. -/
def HasParent (u v : Datum) : Prop :=
  ∃ t name, index.type? u = some t ∧ ¬ t.parent.isEmpty ∧ index.resolveType t.parent = .ok name ∧
    v = .text name

/-- The chain of `t` and its parents behind the types `seen`. It goes from parent to parent, repeats
no name, and stops only where there is no parent or where the next name is empty or was passed. -/
structure Ancestry (seen : List Datum) (t : Datum) (chain : List Datum) : Prop where
  head? : chain.head? = if t.isEmpty ∨ t ∈ seen then none else some t
  linked : chain.IsChain index.HasParent
  nodup : chain.Nodup
  fresh : ∀ u ∈ chain, ¬ u.isEmpty ∧ u ∉ seen
  ends : ∀ u ∈ chain.getLast?, ∀ v, index.HasParent u v → v.isEmpty ∨ v ∈ seen ∨ v ∈ chain

/-- The declared type of a field in its first declaration by an indexed type itself. -/
def declaredType? (name u : Datum) : Option Datum :=
  (index.type? u).bind fun t => (t.fieldList.find? (·.name = name)).map (·.type)

/-- Of the types in a chain, the nearest that has any value has this one. -/
def Nearest {β : Type} (value? : Datum → Option β) (chain : List Datum) (b : β) : Prop :=
  ∃ nearer u further, chain = nearer ++ u :: further ∧ value? u = some b ∧
    ∀ v ∈ nearer, value? v = none

end Definitions

variable {index : Index}

theorem nearest_iff {β : Type} {value? : Datum → Option β} {chain : List Datum} {b : β} :
    Nearest value? chain b ↔ chain.findSome? value? = some b :=
  List.findSome?_eq_some_iff.symm

/-! ## The chain of a type -/

theorem HasParent.unique {u v w : Datum} (hv : index.HasParent u v) (hw : index.HasParent u w) :
    v = w := by
  obtain ⟨t, name, ht, -, hname, rfl⟩ := hv
  obtain ⟨t', name', ht', -, hname', rfl⟩ := hw
  rw [ht, Option.some.injEq] at ht'
  subst ht'
  rw [hname, Except.ok.injEq] at hname'
  rw [hname']

namespace Ancestry

variable {seen : List Datum} {t : Datum}

theorem nil (h : t.isEmpty ∨ t ∈ seen) : index.Ancestry seen t [] := by
  constructor <;> simp_all

/-- A chain that ends behind its first type. -/
theorem singleton (hempty : ¬ t.isEmpty) (hnew : t ∉ seen) (hnone : ∀ v, ¬ index.HasParent t v) :
    index.Ancestry seen t [t] := by
  constructor <;> simp_all

/-- A chain that goes on with that of the parent. -/
theorem cons {v : Datum} {chain : List Datum} (hempty : ¬ t.isEmpty) (hnew : t ∉ seen)
    (hparent : index.HasParent t v) (h : index.Ancestry (t :: seen) v chain) :
    index.Ancestry seen t (t :: chain) where
  head? := by simp [hempty, hnew]
  linked := by
    refine h.linked.cons fun u hu => ?_
    rw [h.head?, Option.mem_def, Option.ite_none_left_eq_some, Option.some.injEq] at hu
    exact hu.2 ▸ hparent
  nodup := List.nodup_cons.mpr
    ⟨fun hmem => (h.fresh t hmem).2 List.mem_cons_self, h.nodup⟩
  fresh u hu := by
    rcases List.mem_cons.mp hu with rfl | hu
    · exact ⟨hempty, hnew⟩
    · exact ⟨(h.fresh u hu).1, fun hseen => (h.fresh u hu).2 (List.mem_cons_of_mem _ hseen)⟩
  ends u hu w hw := by
    have hlater : w.isEmpty ∨ w ∈ t :: seen ∨ w ∈ chain := by
      cases chain with
      | nil =>
        -- the chain of the parent is empty, so the name of the parent stops it
        obtain rfl : u = t := by simpa using hu.symm
        have hhead := h.head?
        rw [List.head?_nil, eq_comm, ite_eq_left_iff, hparent.unique hw] at hhead
        grind
      | cons first chain => exact h.ends u (by simpa using hu) w hw
    grind

/-- What follows the first type of a chain is the chain of its parent. -/
theorem tail {v : Datum} {chain : List Datum} (h : index.Ancestry seen t (t :: chain))
    (hparent : index.HasParent t v) : index.Ancestry (t :: seen) v chain where
  head? := by
    cases chain with
    | nil =>
      have hends := h.ends t (by simp) v hparent
      have hstops : v.isEmpty ∨ v ∈ t :: seen := by grind
      rw [if_pos hstops, List.head?_nil]
    | cons u chain =>
      obtain rfl : u = v := (List.isChain_cons_cons.mp h.linked).1.unique hparent
      have hnew : ¬ (u.isEmpty ∨ u ∈ t :: seen) := by
        have hfresh := h.fresh u (by simp)
        have hnodup := h.nodup
        grind
      rw [if_neg hnew, List.head?_cons]
  linked := h.linked.tail
  nodup := (List.nodup_cons.mp h.nodup).2
  fresh u hu := by
    have hfresh := h.fresh u (List.mem_cons_of_mem _ hu)
    have hnodup := h.nodup
    grind
  ends u hu w hw := by
    have hlast : u ∈ (t :: chain).getLast? := by
      cases chain with
      | nil => cases hu
      | cons first chain => simpa using hu
    have hends := h.ends u hlast w hw
    grind

theorem tail_eq_nil {chain : List Datum} (h : index.Ancestry seen t (t :: chain))
    (hnone : ∀ v, ¬ index.HasParent t v) : chain = [] := by
  cases chain with
  | nil => rfl
  | cons u chain => exact absurd (List.isChain_cons_cons.mp h.linked).1 (hnone u)

/-- A type has one chain. -/
theorem unique {chain other : List Datum} (h : index.Ancestry seen t chain)
    (h' : index.Ancestry seen t other) : chain = other := by
  induction chain generalizing seen t other with
  | nil =>
    have hhead := h'.head?
    rw [← h.head?, List.head?_nil, List.head?_eq_none_iff] at hhead
    exact hhead.symm
  | cons u chain ih =>
    have hhead := h'.head?
    have hfirst := h.head?
    rw [← hfirst, List.head?_cons] at hhead
    obtain ⟨rest, rfl⟩ := List.head?_eq_some_iff.mp hhead
    obtain rfl : t = u := by
      rw [List.head?_cons, eq_comm, Option.ite_none_left_eq_some, Option.some.injEq] at hfirst
      exact hfirst.2
    by_cases hparent : ∃ v, index.HasParent t v
    · obtain ⟨v, hparent⟩ := hparent
      rw [ih (h.tail hparent) (h'.tail hparent)]
    · rw [not_exists] at hparent
      rw [h.tail_eq_nil hparent, h'.tail_eq_nil hparent]

end Ancestry

namespace WellTyped

variable (h : index.WellTyped)
include h

/-- The search for a chain does not run out of fuel: the types passed are different types of the
index, so they are no more than those. -/
theorem ancestry_lineageFrom {fuel : Nat} {seen : List Datum} (hnodup : seen.Nodup)
    (hknown : seen ⊆ index.types.keys) (hfuel : index.types.length < fuel + seen.length)
    (t : Datum) : index.Ancestry seen t (index.lineageFrom fuel seen t).types := by
  induction fuel generalizing seen t with
  | zero =>
    have hle : seen.length ≤ index.types.keys.length := hnodup.length_le_of_subset hknown
    rw [Table.keys, List.length_map] at hle
    omega
  | succ fuel ih =>
    unfold lineageFrom
    split
    · rename_i hstops
      exact .nil (by simpa using hstops)
    · rename_i hgoes
      obtain ⟨hempty, hnew⟩ : ¬ t.isEmpty ∧ t ∉ seen := by simpa using hgoes
      split
      · rename_i hunknown
        refine .singleton hempty hnew ?_
        rintro v ⟨r, name, hr, -⟩
        rw [hunknown] at hr
        cases hr
      · rename_i r hr
        split
        · rename_i hroot
          refine .singleton hempty hnew ?_
          rintro v ⟨r', name, hr', hparent, -⟩
          rw [hr, Option.some.injEq] at hr'
          exact hparent (hr' ▸ hroot)
        · rename_i hparent
          obtain ⟨name, hname, -⟩ := total_resolveType index (h.of_type? hr).parent
          have hmem : t ∈ index.types.keys := Table.mem_keys_iff.mpr ⟨r, hr⟩
          rw [hname]
          refine .cons hempty hnew ⟨r, name, hr, hparent, hname, rfl⟩ ?_
          refine ih (List.nodup_cons.mpr ⟨hnew, hnodup⟩) (List.cons_subset.mpr ⟨hmem, hknown⟩) ?_ _
          rw [List.length_cons]
          omega

/-- The chain of a type is found, however its parents refer to each other. -/
theorem ancestry_lineage (t : Datum) : index.Ancestry [] t (index.lineage t).types :=
  h.ancestry_lineageFrom List.nodup_nil (List.nil_subset _) (Nat.lt_succ_self _) t

/-! ## Look-ups along the chain -/

theorem lookupMember_eq (t : Datum) (name : String) :
    index.lookupMember t name =
      .ok ((index.lineage t).types.findSome? fun u => index.method? (u.display ++ "." ++ name)) := by
  simp only [lookupMember]
  split
  · rename_i m hm
    rw [hm]
  · rename_i hnone
    rw [hnone, lineage, h.fault?_lineageFrom]

omit h in
theorem find?_fieldsOf (chain : List Datum) (name : Datum) :
    ((index.fieldsOf chain).find? (·.name = name)).map (·.type) =
      chain.findSome? (index.declaredType? name) := by
  rw [fieldsOf, List.find?_flatMap, List.map_findSome?, ← List.head?_filterMap,
    List.filterMap_filterMap, List.head?_filterMap]
  rfl

theorem exists_fieldTypes (t : Datum) :
    ∃ fields, index.fieldTypes t = .ok fields ∧ fields.keys.Nodup ∧
      ∀ name, fields.find? name = (index.lineage t).types.findSome? (index.declaredType? name) := by
  obtain ⟨fields, hfields, -⟩ := h.gives_fieldTypes t
  refine ⟨fields, hfields, ?_⟩
  simp only [fieldTypes, lineage, h.fault?_lineageFrom] at hfields
  split at hfields
  · cases hfields
    refine ⟨Table.nodup_keys_foldl_setNew (fun f : Field => (f.name, f.type)) _ List.nodup_nil,
      fun name => ?_⟩
    rw [Table.find?_foldl_setNew (fun f : Field => (f.name, f.type)), Table.find?_nil,
      Option.none_or, ← find?_fieldsOf]
    rfl
  · cases hfields

end WellTyped

/-- Every type has exactly one chain of parents. A method of some name is looked up on the nearest
type of the chain that has one, and the fields are those that indexed types of the chain declare,
each with the type of its first declaration by the nearest of them. -/
theorem inherited_nearest_first (h : index.WellTyped) (t : Datum) :
    ∃ chain, (∀ other, index.Ancestry [] t other ↔ other = chain) ∧
      (∀ name, ∃ found, index.lookupMember t name = .ok found ∧
        ∀ m, found = some m ↔
          Nearest (fun u => index.method? (u.display ++ "." ++ name)) chain m) ∧
      ∃ fields, index.fieldTypes t = .ok fields ∧ fields.keys.Nodup ∧
        ∀ name declared, fields.find? name = some declared ↔
          Nearest (index.declaredType? name) chain declared := by
  have hchain := h.ancestry_lineage t
  refine ⟨(index.lineage t).types, fun other => ⟨fun ho => ho.unique hchain, ?_⟩, ?_, ?_⟩
  · rintro rfl
    exact hchain
  · intro name
    exact ⟨_, h.lookupMember_eq t name, fun m => nearest_iff.symm⟩
  · obtain ⟨fields, hfields, hnodup, hfind⟩ := h.exists_fieldTypes t
    refine ⟨fields, hfields, hnodup, fun name declared => ?_⟩
    rw [hfind, nearest_iff]

/-- Two types that extend each other, one of them under its simple name with type arguments. Each
declares a field `next`, the first of them twice. -/
def circle : Index := .ofTypes
  [{ Corpus.stock with
      name := .text "Node"
      parent := .text "app.Base"
      fields := some [⟨.text "next", .text "Node", []⟩, ⟨.text "next", .text "Item", []⟩]
      methods := some [.calling "step" []] },
    { Corpus.stock with
      name := .text "Base"
      parent := .text "Node<Item>[]"
      fields := some [⟨.text "next", .text "Base", []⟩, ⟨.text "size", .text "int", []⟩]
      methods := some [.calling "step" [], .calling "reset" []] }]

/-- The chain stops where it comes back to its first type, and the own declarations count first. -/
theorem inherited_nearest_first_circle :
    (∃ chain, (∀ other, circle.Ancestry [] (.text "app.Node") other ↔ other = chain) ∧
      (∀ name, ∃ found, circle.lookupMember (.text "app.Node") name = .ok found ∧
        ∀ m, found = some m ↔
          Nearest (fun u => circle.method? (u.display ++ "." ++ name)) chain m) ∧
      ∃ fields, circle.fieldTypes (.text "app.Node") = .ok fields ∧ fields.keys.Nodup ∧
        ∀ name declared, fields.find? name = some declared ↔
          Nearest (circle.declaredType? name) chain declared) ∧
      (circle.lineage (.text "app.Node")).types = [.text "app.Node", .text "app.Base"] ∧
      (circle.fieldTypes (.text "app.Node")).toOption =
        some [(.text "next", .text "Node"), (.text "size", .text "int")] :=
  ⟨inherited_nearest_first (show circle.WellTyped by decide) _, by decide +kernel⟩

end EntryFlow.Index
