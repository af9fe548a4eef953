import EntryFlow.Proofs.Table
import EntryFlow.Resolution

/-!
# Well-typed corpora

A corpus is well-typed when every name and declared type in it is a text, and null stands only where
a declaration may be missing. The index of such a corpus exists, and every method in it is found
under its own base name and nowhere else.

## Main definitions

* `Corpus.WellTyped`, `Conventions.WellTyped`: what callers promise.
* `Index.WellTyped`: any index of well-typed records.
* `Index.WellFormed`: what the index of a well-typed corpus is like.

## Main statements

* `Index.wellFormed_of_build`: the index of a well-typed corpus is well-formed.
* `Index.WellFormed.eq_of_baseFqn_eq`: methods of the index are told apart by their base names.
-/

namespace EntryFlow

namespace Datum

/-- The value is a text. -/
def isText : Datum → Bool
  | text _ => true
  | _ => false

/-- The value is a text or missing. -/
def isOptionalText : Datum → Bool
  | null => true
  | text _ => true
  | _ => false

theorem exists_eq_text {d : Datum} (h : d.isText) : ∃ s, d = .text s := by
  cases d <;> simp_all [isText]

theorem isOptionalText_of_isText {d : Datum} (h : d.isText) : d.isOptionalText := by
  obtain ⟨s, rfl⟩ := exists_eq_text h
  rfl

theorem isKey_of_isOptionalText {d : Datum} (h : d.isOptionalText) : d.isKey := by
  cases d <;> simp_all [isOptionalText, isKey]

theorem isKey_of_isText {d : Datum} (h : d.isText) : d.isKey :=
  isKey_of_isOptionalText (isOptionalText_of_isText h)

theorem exists_eq_text_of_not_isEmpty {d : Datum} (h : d.isOptionalText) (hd : ¬ d.isEmpty) :
    ∃ s, d = .text s := by
  cases d <;> simp_all [isOptionalText, isEmpty]

theorem mapM_text?_map (texts : List String) : (texts.map text).mapM text? = some texts := by
  induction texts with
  | nil => rfl
  | cons s texts ih => simp [ih, text?]

theorem exists_eq_map_text {ds : List Datum} (h : ∀ d ∈ ds, d.isText) :
    ∃ texts : List String, ds = texts.map text := by
  induction ds with
  | nil => exact ⟨[], rfl⟩
  | cons d ds ih =>
    obtain ⟨hd, hds⟩ := List.forall_mem_cons.mp h
    obtain ⟨s, rfl⟩ := exists_eq_text hd
    obtain ⟨texts, rfl⟩ := ih hds
    exact ⟨s :: texts, rfl⟩

end Datum

/-! ## Well-typed records -/

/-- A variable with a name and a declared type. -/
structure Variable.WellTyped (v : Variable) : Prop where
  type : v.type.isText
  name : v.name.isText

/-- A field with a name and a declared type. -/
structure Field.WellTyped (f : Field) : Prop where
  name : f.name.isText
  type : f.type.isText

/-- A method with a name; the return type, the declaring type and single calls may be missing. -/
structure Method.WellTyped (m : Method) : Prop where
  name : m.name.isText
  returnType : m.returnType.isOptionalText
  parameters : ∀ v ∈ m.parameters, v.WellTyped
  locals : ∀ v ∈ m.locals, v.WellTyped
  calls : ∀ call ∈ m.callList, call.isOptionalText
  className : m.className.isOptionalText
  packageName : m.packageName.isOptionalText

/-- A type with a name; the package, the kind and the parent may be missing. -/
structure TypeRecord.WellTyped (t : TypeRecord) : Prop where
  name : t.name.isText
  packageName : t.packageName.isOptionalText
  kind : t.kind.isOptionalText
  fields : ∀ f ∈ t.fieldList, f.WellTyped
  methods : ∀ m ∈ t.methodList, m.WellTyped
  parent : t.parent.isOptionalText

/-- Every type of the corpus is well-typed. -/
def Corpus.WellTyped (types : List TypeRecord) : Prop :=
  ∀ t ∈ types, t.WellTyped

/-- Markers and receivers are texts. -/
structure Conventions.WellTyped (conventions : Conventions) : Prop where
  markers : ∀ d ∈ conventions.markers, d.isText
  receivers : ∀ d ∈ conventions.receivers, d.isText

instance (v : Variable) : Decidable v.WellTyped :=
  decidable_of_iff (v.type.isText ∧ v.name.isText) ⟨fun ⟨a, b⟩ => ⟨a, b⟩, fun ⟨a, b⟩ => ⟨a, b⟩⟩

instance (f : Field) : Decidable f.WellTyped :=
  decidable_of_iff (f.name.isText ∧ f.type.isText) ⟨fun ⟨a, b⟩ => ⟨a, b⟩, fun ⟨a, b⟩ => ⟨a, b⟩⟩

instance (m : Method) : Decidable m.WellTyped :=
  decidable_of_iff (m.name.isText ∧ m.returnType.isOptionalText ∧
      (∀ v ∈ m.parameters, v.WellTyped) ∧ (∀ v ∈ m.locals, v.WellTyped) ∧
      (∀ call ∈ m.callList, call.isOptionalText) ∧ m.className.isOptionalText ∧
      m.packageName.isOptionalText)
    ⟨fun ⟨a, b, c, d, e, f, g⟩ => ⟨a, b, c, d, e, f, g⟩,
      fun ⟨a, b, c, d, e, f, g⟩ => ⟨a, b, c, d, e, f, g⟩⟩

instance (t : TypeRecord) : Decidable t.WellTyped :=
  decidable_of_iff (t.name.isText ∧ t.packageName.isOptionalText ∧ t.kind.isOptionalText ∧
      (∀ f ∈ t.fieldList, f.WellTyped) ∧ (∀ m ∈ t.methodList, m.WellTyped) ∧
      t.parent.isOptionalText)
    ⟨fun ⟨a, b, c, d, e, f⟩ => ⟨a, b, c, d, e, f⟩, fun ⟨a, b, c, d, e, f⟩ => ⟨a, b, c, d, e, f⟩⟩

instance (types : List TypeRecord) : Decidable (Corpus.WellTyped types) :=
  inferInstanceAs (Decidable (∀ t ∈ types, t.WellTyped))

instance (conventions : Conventions) : Decidable conventions.WellTyped :=
  decidable_of_iff ((∀ d ∈ conventions.markers, d.isText) ∧ ∀ d ∈ conventions.receivers, d.isText)
    ⟨fun ⟨a, b⟩ => ⟨a, b⟩, fun ⟨a, b⟩ => ⟨a, b⟩⟩

/-- A method without parameters that makes some calls. -/
def Method.calling (name : String) (calls : List String) : Method where
  name := .text name
  returnType := .null
  parameters := []
  locals := []
  calls := some (calls.map .text)
  annotations := []
  className := .null
  packageName := .null

namespace Corpus

/-- A controller with calls of every kind, among them one back to where it came from. -/
def shop : TypeRecord where
  name := .text "Shop"
  packageName := .text "app"
  kind := .text "controller"
  fields := some [⟨.text "stock", .text "Stock", []⟩]
  methods := some
    [.calling "buy" ["stock.take(item)", "log.info(item)", "stock.take(item)", "refund"],
      .calling "refund" ["buy(item)", "gone()"]]
  parent := .null
  interfaces := []
  annotations := []
  filePath := .null

/-- A service that calls a framework and itself. -/
def stock : TypeRecord where
  name := .text "Stock"
  packageName := .text "app"
  kind := .text "service"
  fields := some [⟨.text "itemRepository", .text "ItemRepository", []⟩]
  methods := some [.calling "take" ["itemRepository.save(item)", "take(item)"]]
  parent := .null
  interfaces := []
  annotations := []
  filePath := .null

/-- A small corpus with loops. -/
def sample : List TypeRecord := [shop, stock]

/-- The first method of the sample. -/
def sampleRoot : Method :=
  (Method.calling "buy"
    ["stock.take(item)", "log.info(item)", "stock.take(item)", "refund"]).ownedBy shop

/-- The second method of the sample, with a call that no type offers. -/
def sampleRefund : Method :=
  (Method.calling "refund" ["buy(item)", "gone()"]).ownedBy shop

end Corpus

theorem Variable.mapM_text?_type {vs : List Variable} (h : ∀ v ∈ vs, v.WellTyped) :
    ∃ texts, (vs.map (·.type)).mapM Datum.text? = some texts := by
  have htypes : ∀ d ∈ vs.map (·.type), d.isText := by
    intro d hd
    obtain ⟨v, hv, rfl⟩ := List.mem_map.mp hd
    exact (h v hv).type
  obtain ⟨texts, htexts⟩ := Datum.exists_eq_map_text htypes
  exact ⟨texts, htexts ▸ Datum.mapM_text?_map texts⟩

/-- A well-typed method has a signature: its base name with the parameters in parentheses. -/
theorem Method.exists_signature {m : Method} (h : m.WellTyped) :
    ∃ parameters, m.signature = .ok (m.baseFqn ++ "(" ++ parameters ++ ")") := by
  obtain ⟨texts, htexts⟩ := Variable.mapM_text?_type h.parameters
  refine ⟨", ".intercalate texts, ?_⟩
  simp [signature, parameterTypes, Datum.join, htexts, bind, Except.bind, pure, Except.pure]

theorem Method.WellTyped.ownedBy {m : Method} {t : TypeRecord} (hm : m.WellTyped)
    (ht : t.WellTyped) : (m.ownedBy t).WellTyped where
  name := hm.name
  returnType := hm.returnType
  parameters := hm.parameters
  locals := hm.locals
  calls := hm.calls
  className := Datum.isOptionalText_of_isText ht.name
  packageName := ht.packageName

/-- The key of a method is its base name on the type that declares it. -/
theorem TypeRecord.methodKey_eq {t : TypeRecord} (ht : t.WellTyped) (m : Method) :
    t.methodKey m = (m.ownedBy t).baseFqn := by
  obtain ⟨s, hs⟩ := Datum.exists_eq_text ht.name
  have hname : t.name = if t.name.isEmpty then .text "" else t.name := by
    rw [hs]
    split
    · rename_i hempty
      rw [show s = "" by simpa [Datum.isEmpty] using hempty]
    · rfl
  rw [methodKey, fqn, Method.baseFqn, Method.typeFqn]
  exact congrArg (fun name => (t.packageName.qualify name).display ++ "." ++ m.name.display) hname

/-! ## The index of a well-typed corpus -/

/-- An index in which all records are well-typed, under whatever names they stand. -/
structure Index.WellTyped (index : Index) : Prop where
  types : ∀ e ∈ index.types, e.2.WellTyped
  methods : ∀ e ∈ index.methods, e.2.WellTyped

instance (index : Index) : Decidable index.WellTyped :=
  decidable_of_iff ((∀ e ∈ index.types, e.2.WellTyped) ∧ ∀ e ∈ index.methods, e.2.WellTyped)
    ⟨fun ⟨a, b⟩ => ⟨a, b⟩, fun ⟨a, b⟩ => ⟨a, b⟩⟩

/-- An index in which all records are well-typed and every method stands under its base name,
once. -/
structure Index.WellFormed (index : Index) : Prop where
  types : ∀ e ∈ index.types, e.2.WellTyped
  methods : ∀ e ∈ index.methods, e.2.WellTyped
  keyed : ∀ e ∈ index.methods, e.1 = e.2.baseFqn
  nodup : index.methods.keys.Nodup

namespace Index

theorem wellFormed_empty : empty.WellFormed := by
  constructor <;> simp [empty]

/-- The entry of a method of a type in the table of methods. -/
def methodEntry (t : TypeRecord) (m : Method) : String × Method :=
  (t.methodKey m, m.ownedBy t)

/-- The types of the index, entered one after the other. -/
theorem types_ofTypes (types : List TypeRecord) :
    (ofTypes types).types = Table.ofList (types.map fun t => (t.fqn, t)) := by
  have hfold : ∀ index : Index, (types.foldl add index).types =
      (types.map fun t => (t.fqn, t)).foldl (fun table e => table.set e.1 e.2) index.types := by
    induction types with
    | nil => exact fun _ => rfl
    | cons t types ih => exact fun index => ih (index.add t)
  exact hfold empty

/-- The methods of the index, entered one after the other. -/
theorem methods_ofTypes (types : List TypeRecord) :
    (ofTypes types).methods =
      Table.ofList (types.flatMap fun t => t.methodList.map (methodEntry t)) := by
  have hfold : ∀ index : Index, (types.foldl add index).methods =
      (types.flatMap fun t => t.methodList.map (methodEntry t)).foldl
        (fun table e => table.set e.1 e.2) index.methods := by
    induction types with
    | nil => exact fun _ => rfl
    | cons t types ih =>
      intro index
      rw [List.foldl_cons, ih, List.flatMap_cons, List.foldl_append, List.foldl_map]
      rfl
  exact hfold empty

theorem WellFormed.add {index : Index} (h : index.WellFormed) {t : TypeRecord}
    (ht : t.WellTyped) : (index.add t).WellFormed where
  types e he := by
    rcases Table.mem_set he with he | rfl
    · exact h.types e he
    · exact ht
  methods e he := by
    rcases Table.mem_foldl_set (methodEntry t) t.methodList he with he | ⟨m, hm, rfl⟩
    · exact h.methods e he
    · exact (ht.methods m hm).ownedBy ht
  keyed e he := by
    rcases Table.mem_foldl_set (methodEntry t) t.methodList he with he | ⟨m, -, rfl⟩
    · exact h.keyed e he
    · exact TypeRecord.methodKey_eq ht m
  nodup := Table.nodup_keys_foldl_set (methodEntry t) t.methodList h.nodup

theorem build_eq_ofTypes {types : List TypeRecord} (h : Corpus.WellTyped types) :
    build types = .ok (ofTypes types) := by
  rw [build, if_pos]
  exact List.all_eq_true.mpr fun t ht => Datum.isKey_of_isText (h t ht).name

theorem wellFormed_ofTypes {types : List TypeRecord} (h : Corpus.WellTyped types) :
    (ofTypes types).WellFormed :=
  List.foldlRecOn types add wellFormed_empty fun _ hindex t ht => hindex.add (h t ht)

/-- The index of a well-typed corpus is well-formed. -/
theorem wellFormed_of_build {types : List TypeRecord} {index : Index}
    (h : Corpus.WellTyped types) (hindex : build types = .ok index) : index.WellFormed := by
  rw [build_eq_ofTypes h] at hindex
  cases hindex
  exact wellFormed_ofTypes h

/-- Every method of the index is declared by a type of the corpus. -/
theorem exists_of_mem_methods {types : List TypeRecord} {e : String × Method}
    (he : e ∈ (ofTypes types).methods) : ∃ t ∈ types, ∃ m ∈ t.methodList, e = methodEntry t m := by
  refine List.foldlRecOn (motive := fun index : Index => e ∈ index.methods → _) types add ?_ ?_ he
  · exact fun h => absurd h List.not_mem_nil
  · intro index ih t ht h
    rcases Table.mem_foldl_set (methodEntry t) t.methodList h with h | ⟨m, hm, rfl⟩
    · exact ih h
    · exact ⟨t, ht, m, hm, rfl⟩

/-- Every method that a type of the corpus declares has its key in the index. -/
theorem mem_keys_ofTypes {types : List TypeRecord} {key : String} :
    key ∈ (ofTypes types).methods.keys ↔
      ∃ t ∈ types, ∃ m ∈ t.methodList, t.methodKey m = key := by
  have hfold := iff_foldl (f := add) (fun index : Index => key ∈ index.methods.keys)
    (fun t => ∃ m ∈ t.methodList, t.methodKey m = key)
    (fun index t => Table.mem_keys_foldl_set (methodEntry t) t.methodList) types empty
  rw [ofTypes, hfold]
  simp [empty]

theorem mem_methodList_iff {index : Index} {m : Method} :
    m ∈ index.methodList ↔ ∃ key, (key, m) ∈ index.methods := by
  simp [methodList, Table.values]

namespace WellTyped

variable {index : Index} (h : index.WellTyped)
include h

theorem of_mem {m : Method} (hm : m ∈ index.methodList) : m.WellTyped := by
  obtain ⟨key, hkey⟩ := mem_methodList_iff.mp hm
  exact h.methods _ hkey

theorem of_type? {fqn : Datum} {t : TypeRecord} (ht : index.type? fqn = some t) : t.WellTyped :=
  h.types _ (Table.mem_of_find? ht)

end WellTyped

namespace WellFormed

variable {index : Index} (h : index.WellFormed)
include h

theorem wellTyped : index.WellTyped := ⟨h.types, h.methods⟩

theorem wellTyped_of_mem {m : Method} (hm : m ∈ index.methodList) : m.WellTyped :=
  h.wellTyped.of_mem hm

/-- What is found under a key has that key as its base name. -/
theorem method?_eq_some_iff {key : String} {m : Method} :
    index.method? key = some m ↔ m ∈ index.methodList ∧ m.baseFqn = key := by
  rw [method?, Table.find?_eq_some_iff h.nodup, mem_methodList_iff]
  constructor
  · exact fun hmem => ⟨⟨key, hmem⟩, (h.keyed _ hmem).symm⟩
  · rintro ⟨⟨other, hmem⟩, rfl⟩
    rwa [← h.keyed _ hmem]

/-- Methods of the index are told apart by their base names. -/
theorem eq_of_baseFqn_eq {m n : Method} (hm : m ∈ index.methodList) (hn : n ∈ index.methodList)
    (heq : m.baseFqn = n.baseFqn) : m = n := by
  have hfound := h.method?_eq_some_iff.mpr ⟨hm, heq⟩
  rw [h.method?_eq_some_iff.mpr ⟨hn, rfl⟩] at hfound
  exact (Option.some.inj hfound).symm

end WellFormed

end Index

end EntryFlow
