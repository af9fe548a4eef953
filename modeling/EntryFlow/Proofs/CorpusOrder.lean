import EntryFlow.Proofs.WellTyped
import Mathlib.Data.List.Find

/-!
# The order of a corpus

Files are scanned in some order, and so the types of a corpus and their methods come in some order.
Where no two types share a name and no two methods a key, that order decides nothing but which of
several methods of one simple name the last tier picks. The look-ups of an index are taken one by
one: those by key find what is there, and a scan finds the only entry that fits.

## Main definitions

* `Corpus.Reorders`: two corpora list the same types and methods in any order.
* `Corpus.Distinct`: corpora in which names and keys are told apart.
* `Index.Agrees`: what the look-ups of two indexes have in common then.

## Main statements

* `Corpus.Reorders.agrees`: the indexes of reordered corpora agree.
* `Index.Agrees.ofMethod`, `Index.Agrees.findIn`: contexts and tiers that agree.
* `Conventions.resolve_reordered`: calls are resolved alike over reordered corpora.
-/

namespace EntryFlow

/-! ## Reordered corpora -/

namespace TypeRecord

/-- The type without its methods. -/
def outline (t : TypeRecord) : TypeRecord :=
  { t with methods := none }

@[simp] theorem fqn_outline (t : TypeRecord) : t.outline.fqn = t.fqn := rfl

@[simp] theorem parent_outline (t : TypeRecord) : t.outline.parent = t.parent := rfl

@[simp] theorem fieldList_outline (t : TypeRecord) : t.outline.fieldList = t.fieldList := rfl

@[simp] theorem kindText_outline (t : TypeRecord) : t.outline.kindText = t.kindText := rfl

/-- Both records describe one type, with its methods in any order. -/
structure Reorders (t u : TypeRecord) : Prop where
  outline_eq : t.outline = u.outline
  methods : t.methodList.Perm u.methodList

end TypeRecord

namespace Corpus

/-- Both corpora list the same types, in any order and with their methods in any order. -/
def Reorders (types others : List TypeRecord) : Prop :=
  ∃ middle, types.Perm middle ∧ List.Forall₂ TypeRecord.Reorders middle others

/-- No two types share a qualified or a simple name, and no two methods a key. -/
structure Distinct (types : List TypeRecord) : Prop where
  fqns : (types.map TypeRecord.fqn).Nodup
  names : (types.map TypeRecord.name).Nodup
  keys : (types.flatMap fun t => t.methodList.map t.methodKey).Nodup

/-- The methods of a corpus under their keys. -/
def methodEntries (types : List TypeRecord) : List (String × Method) :=
  types.flatMap fun t => t.methodList.map (Index.methodEntry t)

theorem map_fst_methodEntries (types : List TypeRecord) :
    (methodEntries types).map Prod.fst = types.flatMap fun t => t.methodList.map t.methodKey := by
  rw [methodEntries, List.map_flatMap]
  simp only [List.map_map]
  rfl

namespace Reorders

variable {types others : List TypeRecord} (h : Reorders types others)
include h

theorem outlines : (types.map TypeRecord.outline).Perm (others.map TypeRecord.outline) := by
  obtain ⟨middle, hperm, hsame⟩ := h
  refine (hperm.map _).trans (.of_eq ?_)
  clear hperm
  induction hsame with
  | nil => rfl
  | cons htu _ ih => rw [List.map_cons, List.map_cons, htu.outline_eq, ih]

theorem entries : (methodEntries types).Perm (methodEntries others) := by
  obtain ⟨middle, hperm, hsame⟩ := h
  refine (hperm.flatMap_right _).trans ?_
  clear hperm
  induction hsame with
  | nil => exact .nil
  | @cons t u middle others htu _ ih =>
    have hentry : Index.methodEntry t.outline = Index.methodEntry u.outline := by
      rw [htu.outline_eq]
    change Index.methodEntry t = Index.methodEntry u at hentry
    rw [Corpus.methodEntries, List.flatMap_cons, List.flatMap_cons, hentry]
    exact (htu.methods.map _).append ih

theorem distinct (hd : Distinct types) : Distinct others where
  fqns := by
    have hperm := h.outlines.map TypeRecord.fqn
    rw [List.map_map, List.map_map] at hperm
    exact hperm.nodup_iff.mp hd.fqns
  names := by
    have hperm := h.outlines.map TypeRecord.name
    rw [List.map_map, List.map_map] at hperm
    exact hperm.nodup_iff.mp hd.names
  keys := by
    have hkeys := hd.keys
    rw [← map_fst_methodEntries] at hkeys ⊢
    exact (h.entries.map Prod.fst).nodup_iff.mp hkeys

/-- A type that is the only one of its sort is found in either order. -/
theorem outline_find? {p : TypeRecord → Bool} (hp : p ∘ TypeRecord.outline = p)
    (hone : {t ∈ types | p t}.Subsingleton) :
    (types.find? p).map TypeRecord.outline = (others.find? p).map TypeRecord.outline := by
  have hmap : ∀ ts : List TypeRecord,
      (ts.find? p).map TypeRecord.outline = (ts.map TypeRecord.outline).find? p := by
    intro ts
    rw [List.find?_map, hp]
  rw [hmap, hmap]
  refine List.find?_eq_find?_of_perm h.outlines ?_
  rintro a ⟨ha, hpa⟩ b ⟨hb, hpb⟩
  obtain ⟨t, ht, rfl⟩ := List.mem_map.mp ha
  obtain ⟨u, hu, rfl⟩ := List.mem_map.mp hb
  have hpt : p t := by rwa [← hp]
  have hpu : p u := by rwa [← hp]
  rw [hone ⟨ht, hpt⟩ ⟨hu, hpu⟩]

end Reorders

end Corpus

/-! ## The index of a corpus without repetitions -/

namespace Index

/-- Two indexes answer alike but for the order of their types and of the methods of one name. -/
structure Agrees (index other : Index) : Prop where
  length_types : index.types.length = other.types.length
  type? : ∀ fqn, (index.type? fqn).map TypeRecord.outline =
    (other.type? fqn).map TypeRecord.outline
  typeNamed? : ∀ name, (index.typeNamed? name).map TypeRecord.outline =
    (other.typeNamed? name).map TypeRecord.outline
  method? : ∀ key, index.method? key = other.method? key
  methodOfType? : ∀ typeName name,
    index.methodOfType? typeName name = other.methodOfType? typeName name
  mem_methodList : ∀ m, m ∈ index.methodList ↔ m ∈ other.methodList

end Index

namespace Corpus.Distinct

open Index

variable {types : List TypeRecord} (hd : Distinct types)
include hd

theorem types_ofTypes : (ofTypes types).types = types.map fun t => (t.fqn, t) := by
  rw [Index.types_ofTypes]
  refine Table.ofList_eq_self ?_
  rw [List.map_map]
  exact hd.fqns

theorem methods_ofTypes : (ofTypes types).methods = methodEntries types := by
  rw [Index.methods_ofTypes]
  refine Table.ofList_eq_self ?_
  rw [← methodEntries, map_fst_methodEntries]
  exact hd.keys

theorem type?_ofTypes (fqn : Datum) : (ofTypes types).type? fqn = types.find? (·.fqn = fqn) := by
  rw [type?, hd.types_ofTypes]
  clear hd
  induction types with
  | nil => rfl
  | cons t types ih =>
    rw [List.map_cons, Table.find?_cons, List.find?_cons, ih]
    by_cases ht : t.fqn = fqn <;> simp [ht]

theorem typeNamed?_ofTypes (name : Datum) :
    (ofTypes types).typeNamed? name = types.find? (·.name = name) := by
  rw [typeNamed?, hd.types_ofTypes, Table.values, List.map_map]
  exact congrArg _ (List.map_id _)

theorem nodup_methods : (ofTypes types).methods.keys.Nodup := by
  rw [hd.methods_ofTypes, Table.keys, map_fst_methodEntries]
  exact hd.keys

/-- At most one method of a name is declared by the type of a simple name. -/
theorem subsingleton_methodOfType (typeName name : Datum) :
    {m ∈ (ofTypes types).methodList | m.className = typeName && m.name = name}.Subsingleton := by
  rintro m ⟨hm, hmp⟩ n ⟨hn, hnp⟩
  obtain ⟨key, hkey⟩ := mem_methodList_iff.mp hm
  obtain ⟨other, hother⟩ := mem_methodList_iff.mp hn
  obtain ⟨t, ht, m₀, -, hentry⟩ := exists_of_mem_methods hkey
  obtain ⟨u, hu, n₀, -, hentry'⟩ := exists_of_mem_methods hother
  obtain ⟨rfl, rfl⟩ := Prod.mk.inj hentry
  obtain ⟨rfl, rfl⟩ := Prod.mk.inj hentry'
  simp only [Bool.and_eq_true, decide_eq_true_eq] at hmp hnp
  obtain ⟨rfl, hname⟩ := hmp
  obtain ⟨hclass, hname'⟩ := hnp
  -- the simple name tells the types apart, and then the key tells the methods apart
  obtain rfl : u = t := List.inj_on_of_nodup_map hd.names hu ht hclass
  have hkeys : u.methodKey n₀ = u.methodKey m₀ := by
    have hsame : n₀.name = m₀.name := hname'.trans hname.symm
    rw [TypeRecord.methodKey, TypeRecord.methodKey, hsame]
  have hfound := (Table.find?_eq_some_iff hd.nodup_methods).mpr hkey
  rw [← hkeys, (Table.find?_eq_some_iff hd.nodup_methods).mpr hother] at hfound
  exact (Option.some.inj hfound).symm

end Corpus.Distinct

/-- The indexes of reordered corpora agree. -/
theorem Corpus.Reorders.agrees {types others : List TypeRecord} (h : Reorders types others)
    (hd : Distinct types) : (Index.ofTypes types).Agrees (.ofTypes others) := by
  have hd' := h.distinct hd
  have hmethods : (Index.ofTypes types).methods.Perm (Index.ofTypes others).methods := by
    rw [hd.methods_ofTypes, hd'.methods_ofTypes]
    exact h.entries
  have hvalues : (Index.ofTypes types).methodList.Perm (Index.ofTypes others).methodList :=
    hmethods.map Prod.snd
  have hnamed : ∀ name, ((Index.ofTypes types).typeNamed? name).map TypeRecord.outline =
      ((Index.ofTypes others).typeNamed? name).map TypeRecord.outline := by
    intro name
    rw [hd.typeNamed?_ofTypes, hd'.typeNamed?_ofTypes]
    refine h.outline_find? rfl ?_
    rintro t ⟨ht, htn⟩ u ⟨hu, hun⟩
    exact List.inj_on_of_nodup_map hd.names ht hu
      ((of_decide_eq_true htn).trans (of_decide_eq_true hun).symm)
  refine ⟨?_, fun fqn => ?_, hnamed, fun key => ?_, fun typeName name => ?_,
    fun m => hvalues.mem_iff⟩
  · rw [hd.types_ofTypes, hd'.types_ofTypes, List.length_map, List.length_map]
    simpa using h.outlines.length_eq
  · rw [hd.type?_ofTypes, hd'.type?_ofTypes]
    refine h.outline_find? rfl ?_
    rintro t ⟨ht, htf⟩ u ⟨hu, huf⟩
    exact List.inj_on_of_nodup_map hd.fqns ht hu
      ((of_decide_eq_true htf).trans (of_decide_eq_true huf).symm)
  · exact Table.find?_eq_of_perm hmethods hd.nodup_methods key
  · have hsome := congrArg Option.isSome (hnamed (.text typeName))
    rw [Option.isSome_map, Option.isSome_map] at hsome
    rw [Index.methodOfType?, Index.methodOfType?, hsome]
    split
    · exact List.find?_eq_find?_of_perm hvalues (hd.subsingleton_methodOfType _ _)
    · rfl

/-! ## What agreeing indexes answer -/

theorem cases_of_map_eq {α β : Type} {f : α → β} {x y : Option α} (h : x.map f = y.map f) :
    (x = none ∧ y = none) ∨ ∃ a b, x = some a ∧ y = some b ∧ f a = f b := by
  cases x <;> cases y <;> simp_all

namespace Index.Agrees

variable {index other : Index} (h : index.Agrees other)
include h

theorem resolveName (name : String) : index.resolveName name = other.resolveName name := by
  have hhas : index.types.has (.text name) = other.types.has (.text name) := by
    have hsome := congrArg Option.isSome (h.type? (.text name))
    rwa [Option.isSome_map, Option.isSome_map] at hsome
  rw [Index.resolveName, Index.resolveName, hhas]
  rcases cases_of_map_eq (h.typeNamed? (.text (Name.simple name))) with
    ⟨hnone, hnone'⟩ | ⟨t, u, ht, hu, htu⟩
  · rw [hnone, hnone']
  · have hfqn : t.fqn = u.fqn := by simpa using congrArg TypeRecord.fqn htu
    simp only [ht, hu, hfqn]

theorem resolveType (declared : Datum) :
    index.resolveType declared = other.resolveType declared := by
  rw [Index.resolveType, Index.resolveType, funext h.resolveName]

theorem lineageFrom (fuel : Nat) (seen : List Datum) (current : Datum) :
    index.lineageFrom fuel seen current = other.lineageFrom fuel seen current := by
  induction fuel generalizing seen current with
  | zero => rfl
  | succ fuel ih =>
    rw [Index.lineageFrom, Index.lineageFrom]
    rcases cases_of_map_eq (h.type? current) with ⟨hnone, hnone'⟩ | ⟨t, u, ht, hu, htu⟩
    · rw [hnone, hnone']
    · have hparent : t.parent = u.parent := by simpa using congrArg TypeRecord.parent htu
      simp only [ht, hu, hparent, h.resolveType, ih]

theorem lineage (t : Datum) : index.lineage t = other.lineage t := by
  rw [Index.lineage, Index.lineage, h.length_types, h.lineageFrom]

theorem lookupMember (t : Datum) (name : String) :
    index.lookupMember t name = other.lookupMember t name := by
  simp only [Index.lookupMember, h.lineage, h.method?]

theorem fieldsOf (types : List Datum) : index.fieldsOf types = other.fieldsOf types := by
  induction types with
  | nil => rfl
  | cons t types ih =>
    rw [Index.fieldsOf, Index.fieldsOf] at ih ⊢
    rcases cases_of_map_eq (h.type? t) with ⟨hnone, hnone'⟩ | ⟨r, u, hr, hu, hru⟩
    · rw [List.filterMap_cons_none hnone, List.filterMap_cons_none hnone', ih]
    · have hfields : r.fieldList = u.fieldList := by simpa using congrArg TypeRecord.fieldList hru
      rw [List.filterMap_cons_some hr, List.filterMap_cons_some hu, List.flatMap_cons,
        List.flatMap_cons, ih, hfields]

theorem fieldTypes (t : Datum) : index.fieldTypes t = other.fieldTypes t := by
  rw [Index.fieldTypes, Index.fieldTypes, h.lineage, h.fieldsOf]

/-- A method sees the same from either index. -/
theorem ofMethod (m : Method) : Context.ofMethod index m = Context.ofMethod other m := by
  rw [Context.ofMethod, Context.ofMethod, h.fieldTypes]

/-! ### Chains -/

theorem receiverType (receiver : Datum) (context : Context) :
    index.receiverType receiver context = other.receiverType receiver context := by
  simp only [Index.receiverType, h.resolveType]

theorem trailFrom (names : List String) (current : String) :
    index.trailFrom current names = other.trailFrom current names := by
  induction names generalizing current with
  | nil => rfl
  | cons name names ih =>
    simp only [Index.trailFrom, h.lookupMember, h.resolveType, ih]

theorem typeTrail (segments : List String) (context : Context) :
    index.typeTrail segments context = other.typeTrail segments context := by
  simp only [Index.typeTrail, h.receiverType, h.trailFrom]

theorem followFrom (names : List String) (current : String) :
    index.followFrom current names = other.followFrom current names := by
  induction names generalizing current with
  | nil => rfl
  | cons name names ih =>
    simp only [Index.followFrom, h.lookupMember, h.resolveType, ih]

theorem follow (segments : List String) (context : Context) :
    index.follow segments context = other.follow segments context := by
  simp only [Index.follow, h.receiverType, h.followFrom]

/-! ### Tiers -/

/-- Every tier but the last finds the same method. -/
theorem findIn (call : String) (segments : List String) (context : Context) {tier : Tier}
    (htier : tier ≠ .nameAnywhere) :
    index.findIn call segments context tier = other.findIn call segments context tier := by
  cases tier with
  | direct => rw [Index.findIn, Index.findIn, funext h.method?]
  | chain => exact h.follow segments context
  | className => simp only [Index.findIn, h.methodOfType?]
  | bareName => simp only [Index.findIn, h.lookupMember]
  | nameAnywhere => exact absurd rfl htier

theorem firstFound (call : String) (segments : List String) (context : Context)
    {tiers : List Tier} (htiers : .nameAnywhere ∉ tiers) :
    index.firstFound call segments context tiers =
      other.firstFound call segments context tiers := by
  induction tiers with
  | nil => rfl
  | cons tier tiers ih =>
    obtain ⟨htier, htiers⟩ := List.ne_and_not_mem_of_not_mem_cons htiers
    have hfound := h.findIn call segments context (Ne.symm htier)
    rw [Index.firstFound, Index.firstFound, hfound, ih htiers]

end Index.Agrees

/-! ## Resolution -/

/-- The results of one call over two indexes are equal, or the last tier has found one of some
methods in each of them, both of one simple name. -/
inductive Resolution.Agrees (ms : List Method) :
    Except Fault Resolution → Except Fault Resolution → Prop where
  | same (r : Except Fault Resolution) : Agrees ms r r
  | anywhere {m n : Method} (hm : m ∈ ms) (hn : n ∈ ms) (hname : m.name = n.name) :
    Agrees ms (found .nameAnywhere m) (found .nameAnywhere n)

/-- Where the methods have signatures, no result of the last tier is missing. -/
theorem Resolution.Agrees.eq_or_anywhere {ms : List Method} {r r' : Except Fault Resolution}
    (h : Agrees ms r r') (hsigned : ∀ m ∈ ms, ∃ signature, m.signature = .ok signature) :
    r = r' ∨ ∃ m signature n signature', r = .ok (.method m signature .nameAnywhere) ∧
      r' = .ok (.method n signature' .nameAnywhere) ∧ m.name = n.name := by
  cases h with
  | same => exact .inl rfl
  | @anywhere m n hm hn hname =>
    obtain ⟨signature, hs⟩ := hsigned m hm
    obtain ⟨signature', hs'⟩ := hsigned n hn
    exact .inr ⟨m, signature, n, signature', by rw [found, hs]; rfl, by rw [found, hs']; rfl, hname⟩

namespace Index.Agrees

variable {index other : Index} (h : index.Agrees other)
include h

theorem methodNamed? (name : String) :
    (index.methodNamed? name = none ∧ other.methodNamed? name = none) ∨
      ∃ m ∈ index.methodList, ∃ n ∈ index.methodList, index.methodNamed? name = some m ∧
        other.methodNamed? name = some n ∧ m.name = n.name := by
  have hsome : (index.methodNamed? name).isSome = (other.methodNamed? name).isSome := by
    rw [Bool.eq_iff_iff, Index.methodNamed?, Index.methodNamed?, List.find?_isSome,
      List.find?_isSome]
    simp only [h.mem_methodList]
  cases hm : index.methodNamed? name with
  | none => exact .inl ⟨rfl, by simpa [hm] using hsome⟩
  | some m =>
    rw [hm] at hsome
    obtain ⟨n, hn⟩ := Option.isSome_iff_exists.mp hsome.symm
    have hmn := List.find?_some hm
    have hnn := List.find?_some hn
    exact .inr ⟨m, List.mem_of_find?_eq_some hm, n,
      (h.mem_methodList n).mpr (List.mem_of_find?_eq_some hn), rfl, hn,
      (of_decide_eq_true hmn).trans (of_decide_eq_true hnn).symm⟩

theorem categoryOfType (conventions : Conventions) (name : String) :
    conventions.categoryOfType index name = conventions.categoryOfType other name := by
  rw [Conventions.categoryOfType, Conventions.categoryOfType]
  rcases cases_of_map_eq (h.type? (.text name)) with ⟨hnone, hnone'⟩ | ⟨t, u, ht, hu, htu⟩
  · rw [hnone, hnone']
  · have hkind : t.kindText = u.kindText := by simpa using congrArg TypeRecord.kindText htu
    simp only [ht, hu, hkind]

theorem frameworkCategory (conventions : Conventions) (segments : List String)
    (context : Context) : conventions.frameworkCategory index segments context =
      conventions.frameworkCategory other segments context := by
  simp only [Conventions.frameworkCategory, h.typeTrail, h.categoryOfType]

theorem resolveSegments (conventions : Conventions) (call : String) (segments : List String)
    (context : Context) :
    Resolution.Agrees index.methodList
      (conventions.resolveSegments index call segments context)
      (conventions.resolveSegments other call segments context) := by
  rw [Conventions.resolveSegments, Conventions.resolveSegments,
    h.firstFound call segments context (by decide), h.frameworkCategory]
  split
  · exact .same _
  · split
    · exact .same _
    · exact .same _
    · split
      · exact .same _
      · exact .same _
      · cases hlast : segments.getLast? with
        | none =>
          simp only [Index.firstFound, Index.findIn, hlast, Option.bind_none]
          exact .same _
        | some name =>
          simp only [Index.firstFound, Index.findIn, hlast, Option.bind_some]
          rcases h.methodNamed? name with ⟨hnone, hnone'⟩ |
            ⟨m, hm, n, hn, hfound, hfound', hname⟩
          · rw [hnone, hnone']
            exact .same _
          · rw [hfound, hfound']
            exact .anywhere hm hn hname

/-- A call has the same resolution over either index, or one of the last tier over both. -/
theorem resolve (conventions : Conventions) (raw : Datum) (context : Context) :
    Resolution.Agrees index.methodList (conventions.resolve index raw context)
      (conventions.resolve other raw context) := by
  rw [Conventions.resolve, Conventions.resolve]
  split
  · exact .same _
  · split
    · exact .same _
    · split
      · exact .same _
      · exact .same _
      · exact h.resolveSegments conventions _ _ context

end Index.Agrees

namespace Conventions

/-- Over a corpus in which names and keys are told apart, and over the same types and methods in any
other order, every method has the same context and every call in any context the same resolution,
under any conventions. Only where the last tier finds a method, it does so in both orders, and may
find another one of the same simple name. -/
theorem resolve_reordered {types others : List TypeRecord} {index : Index}
    (h : Corpus.Reorders types others) (hd : Corpus.Distinct types)
    (hindex : Index.build types = .ok index) :
    ∃ other, Index.build others = .ok other ∧
      (∀ m, m ∈ index.methodList ↔ m ∈ other.methodList) ∧
      (∀ m, Context.ofMethod index m = Context.ofMethod other m) ∧
      ∀ (conventions : Conventions) (raw : Datum) (context : Context),
        Resolution.Agrees index.methodList (conventions.resolve index raw context)
          (conventions.resolve other raw context) ∧
        ((∀ m ∈ index.methodList, ∃ signature, m.signature = .ok signature) →
          conventions.resolve index raw context = conventions.resolve other raw context ∨
          ∃ m signature n signature',
            conventions.resolve index raw context = .ok (.method m signature .nameAnywhere) ∧
            conventions.resolve other raw context = .ok (.method n signature' .nameAnywhere) ∧
            m.name = n.name) := by
  have hkeys : types.all (·.name.isKey) = others.all (·.name.isKey) := by
    have hnames := (h.outlines.map TypeRecord.name).all_eq (f := Datum.isKey)
    simpa [List.all_map, Function.comp_def, TypeRecord.outline] using hnames
  rw [Index.build] at hindex
  split at hindex
  · rename_i hall
    cases hindex
    have hagrees := h.agrees hd
    refine ⟨.ofTypes others, by rw [Index.build, ← hkeys, if_pos hall], hagrees.mem_methodList,
      hagrees.ofMethod, fun conventions raw context => ?_⟩
    have hresolve := hagrees.resolve conventions raw context
    exact ⟨hresolve, hresolve.eq_or_anywhere⟩
  · cases hindex

end Conventions

namespace Corpus

/-- A second service with a method `take`. -/
def depot : TypeRecord := { stock with name := .text "Depot" }

/-- A corpus in which `take` is declared twice. -/
def stored : List TypeRecord := [shop, stock, depot]

/-- The same corpus, scanned in another order. -/
def restored : List TypeRecord := [depot, { shop with methods := shop.methods.map .reverse }, stock]

theorem reorders_stored : Reorders stored restored := by
  have hshop : shop.Reorders { shop with methods := shop.methods.map .reverse } :=
    ⟨rfl, (List.reverse_perm shop.methodList).symm⟩
  have hmiddle : stored.Perm [depot, shop, stock] :=
    @List.perm_append_comm _ [shop, stock] [depot]
  exact ⟨_, hmiddle, .cons ⟨rfl, .refl _⟩ (.cons hshop (.cons ⟨rfl, .refl _⟩ .nil))⟩

theorem distinct_stored : Distinct stored :=
  ⟨by decide +kernel, by decide +kernel, by decide +kernel⟩

end Corpus

namespace Conventions

open Corpus (stored restored)

theorem resolve_reordered_stored :
    ∃ other, Index.build restored = .ok other ∧
      (∀ m, m ∈ (Index.ofTypes stored).methodList ↔ m ∈ other.methodList) ∧
      (∀ m, Context.ofMethod (.ofTypes stored) m = Context.ofMethod other m) ∧
      ∀ (conventions : Conventions) (raw : Datum) (context : Context),
        Resolution.Agrees (Index.ofTypes stored).methodList
          (conventions.resolve (.ofTypes stored) raw context)
          (conventions.resolve other raw context) ∧
        ((∀ m ∈ (Index.ofTypes stored).methodList, ∃ signature, m.signature = .ok signature) →
          conventions.resolve (.ofTypes stored) raw context =
            conventions.resolve other raw context ∨
          ∃ m signature n signature',
            conventions.resolve (.ofTypes stored) raw context =
              .ok (.method m signature .nameAnywhere) ∧
            conventions.resolve other raw context = .ok (.method n signature' .nameAnywhere) ∧
            m.name = n.name) :=
  resolve_reordered Corpus.reorders_stored Corpus.distinct_stored rfl

/-- In either order the last tier finds some method `take`, but not the same one. -/
example :
    (default.resolve (.ofTypes stored) (.text "shelf.take(item)") ⟨.null, [], [], []⟩).map
        (·.label?) = .ok (some "app.Stock.take()") ∧
      (default.resolve (.ofTypes restored) (.text "shelf.take(item)") ⟨.null, [], [], []⟩).map
        (·.label?) = .ok (some "app.Depot.take()") := by
  decide +kernel

end Conventions

end EntryFlow
