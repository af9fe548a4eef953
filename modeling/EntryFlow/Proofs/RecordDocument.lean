import EntryFlow.Corpus.Document
import EntryFlow.Proofs.Result
import EntryFlow.Proofs.Table

/-!
# Records and their documents

A record that has all its lists is written, and its document is read back as that record. Every
record that is read has all its lists, whatever sorts of values its document holds, and even where a
text or an object stands for a list. So what was read and written once stays as it is.

## Main definitions

* `Method.Complete`, `TypeRecord.Complete`: the records that have all their lists.
* `Survives`: what reading and writing of one kind of records have to do with each other.

## Main statements

* `Method.exists_save_iff`, `TypeRecord.exists_save_iff`: which records can be written.
* `Method.load_of_save`, `TypeRecord.load_of_save`: what is written is read back.
* `Method.complete_of_load`, `TypeRecord.complete_of_load`: what is read has all its lists.
* `TypeRecord.records_survive`: the records of every kind survive their documents.
-/

namespace EntryFlow

/-- Records of one kind survive their documents: each that has all its lists is written and read
back as it was, and so is each that is read from any document. -/
structure Survives {ρ : Type} (load : Datum → Except Fault ρ) (save : ρ → Except Fault Datum)
    (Complete : ρ → Prop) : Prop where
  load_save : ∀ r, Complete r → ∃ d, save r = .ok d ∧ load d = .ok r
  stable : ∀ d r, load d = .ok r → ∃ e, save r = .ok e ∧ load e = .ok r

/-- It is enough that complete records can be written, that what is written is read back, and that
what is read is complete. -/
theorem Survives.intro {ρ : Type} {load : Datum → Except Fault ρ}
    {save : ρ → Except Fault Datum} {Complete : ρ → Prop}
    (hwritten : ∀ r, Complete r → ∃ d, save r = .ok d)
    (hback : ∀ r d, save r = .ok d → load d = .ok r)
    (hcomplete : ∀ d r, load d = .ok r → Complete r) : Survives load save Complete where
  load_save r hr := by
    obtain ⟨d, hd⟩ := hwritten r hr
    exact ⟨d, hd, hback r d hd⟩
  stable d r hr := by
    obtain ⟨e, he⟩ := hwritten r (hcomplete d r hr)
    exact ⟨e, he, hback r e he⟩

theorem present_eq_ok_iff {items : Option (List Datum)} {d : Datum} :
    present items = .ok d ↔ ∃ ds, items = some ds ∧ d = .list ds := by
  cases items <;> simp [present, eq_comm]

/-- Where null cannot stand for a list that is left out, the list is there. -/
theorem Datum.exists_of_getItems? {d : Datum} {key : String} {items : Option (List Datum)}
    (h : d.getItems? false key = .ok items) : ∃ ds, items = some ds := by
  simp only [getItems?, bind_eq_ok_iff] at h
  obtain ⟨value, -, h⟩ := h
  obtain ⟨ds, -, h⟩ := bind_eq_ok_iff.mp h
  cases h
  exact ⟨ds, rfl⟩

/-- Reading the documents of some records gives the records, if it does so one by one. -/
theorem mapM_load_map_save {ρ : Type} {load : Datum → Except Fault ρ} {save : ρ → Datum}
    (h : ∀ r, load (save r) = .ok r) (rs : List ρ) : (rs.map save).mapM load = .ok rs :=
  mapM_eq_ok_iff.mpr <| List.forall₂_map_left_iff.mpr <| List.forall₂_same.mpr fun r _ => h r

/-! ## Variables and fields -/

theorem Variable.load_save (v : Variable) : load v.save = .ok v := rfl

theorem Field.load_save (f : Field) : load f.save = .ok f := rfl

/-- A text in place of a list counts as the list of its characters. -/
example : Field.load (.object [("name", .text "id"), ("annotations", .text "@Id")]) =
    .ok ⟨.text "id", .text "", [.text "@", .text "I", .text "d"]⟩ := rfl

/-! ## Methods -/

namespace Method

/-- The method has a list of calls. -/
def Complete (m : Method) : Prop := m.calls.isSome

theorem exists_save_iff {m : Method} : (∃ d, m.save = .ok d) ↔ m.Complete := by
  obtain ⟨name, returnType, parameters, locals, calls, annotations, className, packageName⟩ := m
  cases calls with
  | none =>
    refine ⟨?_, fun h => by cases h⟩
    rintro ⟨d, ⟨⟩⟩
  | some calls => exact ⟨fun _ => rfl, fun _ => ⟨_, rfl⟩⟩

/-- A method is read back from its document. -/
theorem load_of_save (nullable : Bool) {m : Method} {d : Datum} (h : m.save = .ok d) :
    load nullable d = .ok m := by
  obtain ⟨name, returnType, parameters, locals, calls, annotations, className, packageName⟩ := m
  obtain ⟨_, hcalls, hd⟩ := bind_eq_ok_iff.mp h
  obtain ⟨calls, rfl, rfl⟩ := present_eq_ok_iff.mp hcalls
  cases hd
  simp only [load, bind_eq_ok_iff]
  refine ⟨name, rfl, returnType, rfl, _, rfl, parameters,
    mapM_load_map_save Variable.load_save parameters, _, rfl, locals,
    mapM_load_map_save Variable.load_save locals, some calls, ?_, annotations, rfl, className, rfl,
    packageName, rfl, rfl⟩
  cases nullable <;> rfl

theorem complete_of_load {m : Method} {d : Datum} (h : load false d = .ok m) : m.Complete := by
  simp only [load, bind_eq_ok_iff] at h
  obtain ⟨name, -, returnType, -, _, -, parameters, -, _, -, locals, -, calls, hcalls,
    annotations, -, className, -, packageName, -, ⟨⟩⟩ := h
  obtain ⟨ds, rfl⟩ := Datum.exists_of_getItems? hcalls
  rfl

theorem survives : Survives (load false) save Complete :=
  .intro (fun _ hm => exists_save_iff.mpr hm) (fun _ _ => load_of_save false)
    fun _ _ => complete_of_load

end Method

/-! ## Types -/

namespace TypeRecord

/-- The type has lists of fields and of methods, and each method has a list of calls. -/
structure Complete (t : TypeRecord) : Prop where
  fields : t.fields.isSome
  methods : t.methods.isSome
  calls : ∀ m ∈ t.methodList, m.Complete

/-- The document of a type is there if its lists are and every method has a document. -/
theorem save_eq_ok_iff {t : TypeRecord} {d : Datum} :
    t.save = .ok d ↔ ∃ fields methods documents, t.fields = some fields ∧
      t.methods = some methods ∧ methods.mapM Method.save = .ok documents ∧
      d = .object
        [("name", t.name), ("package_name", t.packageName), ("kind", t.kind),
          ("fields", .list (fields.map Field.save)), ("methods", .list documents),
          ("parent_class", t.parent), ("interfaces", .list t.interfaces),
          ("annotations", .list t.annotations), ("file_path", t.filePath)] := by
  obtain ⟨name, packageName, kind, fields, methods, parent, interfaces, annotations, filePath⟩ := t
  simp only [save, bind_eq_ok_iff, present_eq_ok_iff, optionMapM_eq_ok_iff, Option.map_eq_some_iff]
  constructor
  · rintro ⟨_, ⟨_, ⟨fields, rfl, rfl⟩, rfl⟩, _, hmethods, _, ⟨documents, rfl, rfl⟩, ⟨⟩⟩
    cases hmethods with
    | some hdocuments => exact ⟨fields, _, documents, rfl, rfl, hdocuments, rfl⟩
  · rintro ⟨fields, methods, documents, rfl, rfl, hdocuments, rfl⟩
    exact ⟨_, ⟨_, ⟨fields, rfl, rfl⟩, rfl⟩, _, .some hdocuments, _, ⟨documents, rfl, rfl⟩, rfl⟩

theorem exists_save_iff {t : TypeRecord} : (∃ d, t.save = .ok d) ↔ t.Complete := by
  constructor
  · rintro ⟨d, hd⟩
    obtain ⟨fields, methods, documents, hfields, hmethods, hdocuments, -⟩ := save_eq_ok_iff.mp hd
    refine ⟨by simp [hfields], by simp [hmethods], fun m hm => ?_⟩
    rw [methodList, hmethods] at hm
    obtain ⟨document, -, hdocument⟩ := exists_right_of_forall₂ (mapM_eq_ok_iff.mp hdocuments) hm
    exact Method.exists_save_iff.mp ⟨document, hdocument⟩
  · rintro ⟨hfields, hmethods, hcalls⟩
    obtain ⟨fields, hfields⟩ := Option.isSome_iff_exists.mp hfields
    obtain ⟨methods, hmethods⟩ := Option.isSome_iff_exists.mp hmethods
    rw [methodList, hmethods] at hcalls
    obtain ⟨documents, hdocuments, -⟩ := total_mapM fun m hm =>
      (Method.exists_save_iff.mpr (hcalls m hm)).imp fun _ h => ⟨h, trivial⟩
    exact ⟨_, save_eq_ok_iff.mpr ⟨fields, methods, documents, hfields, hmethods, hdocuments, rfl⟩⟩

/-- A type is read back from its document. -/
theorem load_of_save (nullable : Bool) {t : TypeRecord} {d : Datum} (h : t.save = .ok d) :
    load nullable d = .ok t := by
  obtain ⟨name, packageName, kind, fields, methods, parent, interfaces, annotations, filePath⟩ := t
  obtain ⟨fields, methods, documents, ⟨⟩, ⟨⟩, hdocuments, rfl⟩ := save_eq_ok_iff.mp h
  have hmethods : documents.mapM (Method.load nullable) = .ok methods :=
    mapM_eq_ok_iff.mpr <| ((mapM_eq_ok_iff.mp hdocuments).imp fun _ _ hm =>
      Method.load_of_save nullable hm).flip
  have hfields := mapM_load_map_save Field.load_save fields
  simp only [load, bind_eq_ok_iff, optionMapM_eq_ok_iff]
  refine ⟨name, rfl, packageName, rfl, kind, rfl, some (fields.map Field.save), ?_, some fields,
    .some hfields, some documents, ?_, some methods, .some hmethods, parent, rfl, interfaces, rfl,
    annotations, rfl, filePath, rfl, rfl⟩
  all_goals cases nullable <;> rfl

theorem complete_of_load {t : TypeRecord} {d : Datum} (h : load false d = .ok t) :
    t.Complete := by
  simp only [load, bind_eq_ok_iff, optionMapM_eq_ok_iff] at h
  obtain ⟨name, -, packageName, -, kind, -, _, hfields, fields, hread, _, hmethods, methods,
    hreads, parent, -, interfaces, -, annotations, -, filePath, -, ⟨⟩⟩ := h
  obtain ⟨documents, rfl⟩ := Datum.exists_of_getItems? hfields
  obtain ⟨documents', rfl⟩ := Datum.exists_of_getItems? hmethods
  cases hread with
  | some hread =>
    cases hreads with
    | some hreads =>
      refine ⟨rfl, rfl, fun m hm => ?_⟩
      obtain ⟨d, -, hd⟩ := exists_left_of_forall₂ (mapM_eq_ok_iff.mp hreads) hm
      exact Method.complete_of_load hd

theorem survives : Survives (load false) save Complete :=
  .intro (fun _ ht => exists_save_iff.mpr ht) (fun _ _ => load_of_save false)
    fun _ _ => complete_of_load

/-- The records of every kind survive their documents: a record that has all its lists is written
and read back as it was, and what is read from any document, even from one with values of wrong
sorts, is written and read back as well. Every variable and every field has all its lists. -/
theorem records_survive :
    Survives Variable.load (fun v => .ok v.save) (fun _ => True) ∧
      Survives Field.load (fun f => .ok f.save) (fun _ => True) ∧
      Survives (Method.load false) Method.save Method.Complete ∧
      Survives (TypeRecord.load false) TypeRecord.save TypeRecord.Complete :=
  ⟨⟨fun v _ => ⟨_, rfl, v.load_save⟩, fun _ v _ => ⟨_, rfl, v.load_save⟩⟩,
    ⟨fun f _ => ⟨_, rfl, f.load_save⟩, fun _ f _ => ⟨_, rfl, f.load_save⟩⟩,
    Method.survives, TypeRecord.survives⟩

end TypeRecord

end EntryFlow
