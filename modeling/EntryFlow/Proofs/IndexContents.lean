import EntryFlow.Proofs.WellTyped

/-!
# What the index of a corpus holds

A corpus may declare a type twice, under one name or split differently into package and name, and a
method in several overloads. The tables of the index keep the order in which names first come up
and the record that comes last. The table of simple names is read off the types that are left, so
there the first one counts.

## Main definitions

* `Corpus.declarations`: the methods of a corpus with the types that declare them.
* `Index.simpleNames`: the table of simple names, as one fills it.

## Main statements

* `Index.type?_ofTypes_eq_some_iff`, `Index.method?_ofTypes_eq_some_iff`: the last record of a name.
* `Index.typeNamed?_ofTypes`: the first of the types left.
* `Index.build_keeps_last`: all tables of an index.
-/

namespace EntryFlow

/-- The methods that the types of a corpus declare, in order, each with its type. -/
def Corpus.declarations (types : List TypeRecord) : List (TypeRecord × Method) :=
  types.flatMap fun t => t.methodList.map (t, ·)

/-- The names of well-typed records are texts, and the key of a method joins them with a dot. -/
theorem TypeRecord.WellTyped.methodKey_eq {t : TypeRecord} (ht : t.WellTyped) {m : Method}
    (hm : m ∈ t.methodList) :
    ∃ fqn name, t.fqn = .text fqn ∧ m.name = .text name ∧ t.methodKey m = fqn ++ "." ++ name := by
  obtain ⟨name, hname⟩ := Datum.exists_eq_text (ht.methods m hm).name
  obtain ⟨fqn, hfqn⟩ : ∃ fqn, t.fqn = .text fqn := by
    rw [fqn, Datum.qualify]
    split
    · exact Datum.exists_eq_text ht.name
    · exact ⟨_, rfl⟩
  refine ⟨fqn, name, hfqn, hname, ?_⟩
  rw [methodKey, hfqn, hname]
  rfl

namespace Index

variable (types : List TypeRecord)

theorem keys_types_ofTypes :
    (ofTypes types).types.keys = (types.map TypeRecord.fqn).eraseDups := by
  rw [types_ofTypes, Table.keys_ofList, List.map_map]
  rfl

theorem nodup_keys_types_ofTypes : (ofTypes types).types.keys.Nodup := by
  rw [types_ofTypes]
  exact Table.nodup_keys_ofList _

/-- A name is bound to the last type of that name. -/
theorem type?_ofTypes_eq_some_iff {fqn : Datum} {t : TypeRecord} :
    (ofTypes types).type? fqn = some t ↔
      ∃ before after, types = before ++ t :: after ∧ t.fqn = fqn ∧ ∀ u ∈ after, u.fqn ≠ fqn := by
  rw [type?, types_ofTypes, Table.find?_ofList_map_eq_some_iff]
  simp only [Prod.mk.injEq]
  constructor
  · rintro ⟨before, _, after, hsplit, ⟨hfqn, rfl⟩, hlast⟩
    exact ⟨before, after, hsplit, hfqn, hlast⟩
  · rintro ⟨before, after, hsplit, hfqn, hlast⟩
    exact ⟨before, t, after, hsplit, ⟨hfqn, rfl⟩, hlast⟩

theorem methods_ofTypes_eq_declarations :
    (ofTypes types).methods =
      Table.ofList ((Corpus.declarations types).map fun d => methodEntry d.1 d.2) := by
  rw [methods_ofTypes, Corpus.declarations, List.map_flatMap]
  simp only [List.map_map]
  rfl

theorem keys_methods_ofTypes :
    (ofTypes types).methods.keys =
      (types.flatMap fun t => t.methodList.map t.methodKey).eraseDups := by
  rw [methods_ofTypes, Table.keys_ofList, List.map_flatMap]
  simp only [List.map_map]
  rfl

/-- A key is bound to the last method declared under it, with the type that declares it. -/
theorem method?_ofTypes_eq_some_iff {key : String} {n : Method} :
    (ofTypes types).method? key = some n ↔
      ∃ before t m after, Corpus.declarations types = before ++ (t, m) :: after ∧
        t.methodKey m = key ∧ (∀ d ∈ after, d.1.methodKey d.2 ≠ key) ∧ n = m.ownedBy t := by
  rw [method?, methods_ofTypes_eq_declarations, Table.find?_ofList_map_eq_some_iff]
  simp only [methodEntry, Prod.mk.injEq]
  constructor
  · rintro ⟨before, ⟨t, m⟩, after, hsplit, ⟨hkey, rfl⟩, hlast⟩
    exact ⟨before, t, m, after, hsplit, hkey, hlast, rfl⟩
  · rintro ⟨before, t, m, after, hsplit, hkey, hlast, rfl⟩
    exact ⟨before, (t, m), after, hsplit, ⟨hkey, rfl⟩, hlast⟩

/-- The table of simple names. A name that is in the table keeps its type. -/
def simpleNames (index : Index) : Table Datum TypeRecord :=
  index.types.values.foldl (fun named t => named.setNew t.name t) []

/-- The search for a simple name has the result of a look-up in the table. -/
theorem find?_simpleNames (index : Index) (name : Datum) :
    index.simpleNames.find? name = index.typeNamed? name := by
  rw [simpleNames, Table.find?_foldl_setNew fun t : TypeRecord => (t.name, t), Table.find?_nil,
    Option.none_or, typeNamed?]
  exact Option.map_id'

/-- A simple name is bound to the first of the types that are left in the index. -/
theorem typeNamed?_ofTypes (name : Datum) :
    (ofTypes types).typeNamed? name =
      ((types.map TypeRecord.fqn).eraseDups.filterMap (ofTypes types).type?).find?
        (·.name = name) := by
  rw [typeNamed?, ← Table.filterMap_find?_keys (nodup_keys_types_ofTypes types),
    keys_types_ofTypes]
  rfl

/-- The tables of the index of a well-typed corpus. The methods stand under the names of their types
and their own, in the order in which these keys first come up. Each key is bound to the last method
declared under it, with the name and the package of its type filled in and all else as declared, and
it is the base name of that method. The types stand under their names likewise, the last one of each
name. A simple name is bound to the first of the types that are left. -/
theorem build_keeps_last {types : List TypeRecord} (htypes : Corpus.WellTyped types) :
    ∃ index, build types = .ok index ∧
      (∀ t ∈ types, ∀ m ∈ t.methodList, ∃ fqn name, t.fqn = .text fqn ∧ m.name = .text name ∧
        t.methodKey m = fqn ++ "." ++ name) ∧
      index.methods.keys = (types.flatMap fun t => t.methodList.map t.methodKey).eraseDups ∧
      (∀ key n, index.method? key = some n ↔
        ∃ before t m after, Corpus.declarations types = before ++ (t, m) :: after ∧
          t.methodKey m = key ∧ (∀ d ∈ after, d.1.methodKey d.2 ≠ key) ∧
          n = { m with className := t.name, packageName := t.packageName }) ∧
      (∀ key n, index.method? key = some n → n.baseFqn = key) ∧
      index.types.keys = (types.map TypeRecord.fqn).eraseDups ∧
      (∀ fqn t, index.type? fqn = some t ↔
        ∃ before after, types = before ++ t :: after ∧ t.fqn = fqn ∧
          ∀ u ∈ after, u.fqn ≠ fqn) ∧
      ∀ name, index.simpleNames.find? name = index.typeNamed? name ∧ index.typeNamed? name =
        ((types.map TypeRecord.fqn).eraseDups.filterMap index.type?).find? (·.name = name) := by
  refine ⟨ofTypes types, build_eq_ofTypes htypes, fun t ht m hm => (htypes t ht).methodKey_eq hm,
    keys_methods_ofTypes types, fun key n => method?_ofTypes_eq_some_iff types,
    fun key n hn => ?_, keys_types_ofTypes types, fun fqn t => type?_ofTypes_eq_some_iff types,
    fun name => ⟨find?_simpleNames _ name, typeNamed?_ofTypes types name⟩⟩
  exact ((wellFormed_ofTypes htypes).method?_eq_some_iff.mp hn).2

/-- A type that is declared twice, under two splits of its name and with two overloads of one
method, and a type of the same simple name. The second declaration replaces the first one. -/
def redeclared : List TypeRecord :=
  [{ Corpus.stock with
      name := .text "Stock"
      packageName := .text "app"
      methods := some [.calling "take" ["log.info(item)"], .calling "count" []] },
    { Corpus.stock with
      name := .text "Stock"
      packageName := .text "old"
      methods := some [.calling "take" []] },
    { Corpus.stock with
      name := .text "app.Stock"
      packageName := .null
      methods := some [.calling "take" ["take(item)"], .calling "take" ["count()"]] }]

/-- What is left of the first declaration is its place and the method that the last one lacks. -/
theorem build_keeps_last_redeclared :
    (∃ index, build redeclared = .ok index ∧
      (∀ t ∈ redeclared, ∀ m ∈ t.methodList, ∃ fqn name, t.fqn = .text fqn ∧
        m.name = .text name ∧ t.methodKey m = fqn ++ "." ++ name) ∧
      index.methods.keys =
        (redeclared.flatMap fun t => t.methodList.map t.methodKey).eraseDups ∧
      (∀ key n, index.method? key = some n ↔
        ∃ before t m after, Corpus.declarations redeclared = before ++ (t, m) :: after ∧
          t.methodKey m = key ∧ (∀ d ∈ after, d.1.methodKey d.2 ≠ key) ∧
          n = { m with className := t.name, packageName := t.packageName }) ∧
      (∀ key n, index.method? key = some n → n.baseFqn = key) ∧
      index.types.keys = (redeclared.map TypeRecord.fqn).eraseDups ∧
      (∀ fqn t, index.type? fqn = some t ↔
        ∃ before after, redeclared = before ++ t :: after ∧ t.fqn = fqn ∧
          ∀ u ∈ after, u.fqn ≠ fqn) ∧
      ∀ name, index.simpleNames.find? name = index.typeNamed? name ∧ index.typeNamed? name =
        ((redeclared.map TypeRecord.fqn).eraseDups.filterMap index.type?).find?
          (·.name = name)) ∧
      (ofTypes redeclared).methods.map (fun e => (e.1, e.2.calls)) =
        [("app.Stock.take", some [.text "count()"]), ("app.Stock.count", some []),
          ("old.Stock.take", some [])] ∧
      ((ofTypes redeclared).typeNamed? (.text "Stock")).map TypeRecord.fqn =
        some (.text "old.Stock") :=
  ⟨build_keeps_last (show Corpus.WellTyped redeclared by decide), by decide +kernel⟩

end Index

end EntryFlow
