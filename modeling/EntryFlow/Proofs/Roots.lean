import EntryFlow.EntryPoint
import EntryFlow.Proofs.PlainNames
import EntryFlow.Proofs.Totality

/-!
# The entry points of a well-typed corpus

Every entry point is a method that a type of the corpus declares, so its base name is a key of the
index. Where names are tidy, the walk from that key starts at the method that the index keeps
under it.

## Main definitions

* `EntryPoint.DeclaredBy`: an entry point is a method of a corpus.

## Main statements

* `gives_entryPoints`: the entry points of a corpus can be listed.
* `EntryPoint.DeclaredBy.exists_method?`: the index knows every entry point.
* `EntryPoint.DeclaredBy.baseFqn_eq`: entry points with one signature have one base name.
-/

namespace EntryFlow

/-- Some type of the corpus declares the entry point. -/
def EntryPoint.DeclaredBy (types : List TypeRecord) (root : EntryPoint) : Prop :=
  ∃ t ∈ types, ∃ m ∈ t.methodList, root.baseFqn = t.methodKey m ∧
    ∃ parameters, root.signature = root.baseFqn ++ "(" ++ parameters ++ ")"

namespace TypeRecord

variable {t : TypeRecord}

theorem total_isEntryType (h : t.WellTyped) (kinds : List String) :
    Total (t.isEntryType kinds) :=
  (total_kindText h).bind fun _ _ => .ok trivial

theorem gives_entryPoint (t : TypeRecord) {m : Method} (hm : m.WellTyped) :
    Gives (t.entryPoint m) fun root => root.baseFqn = t.methodKey m ∧
      ∃ parameters, root.signature = root.baseFqn ++ "(" ++ parameters ++ ")" := by
  obtain ⟨texts, htexts⟩ := Variable.mapM_text?_type hm.parameters
  have hjoin : Datum.join ", " m.parameterTypes = .ok (", ".intercalate texts) := by
    simp [Method.parameterTypes, Datum.join, htexts]
  unfold entryPoint
  rw [hjoin]
  exact .ok ⟨rfl, _, rfl⟩

theorem gives_entryPoints (h : t.WellTyped) (kinds : List String) :
    Gives (t.entryPoints kinds) fun roots => ∀ root ∈ roots,
      ∃ m ∈ t.methodList, root.baseFqn = t.methodKey m ∧
        ∃ parameters, root.signature = root.baseFqn ++ "(" ++ parameters ++ ")" := by
  refine (total_isEntryType h kinds).bind fun entry _ => ?_
  split
  · obtain ⟨roots, hroots, hall⟩ := Gives.mapM fun m hm => gives_entryPoint t (h.methods m hm)
    refine ⟨roots, hroots, fun root hroot => ?_⟩
    exact exists_left_of_forall₂ hall hroot
  · exact .ok (by simp)

end TypeRecord

variable {types : List TypeRecord}

/-- The entry points of a well-typed corpus can be listed. -/
theorem gives_entryPoints (h : Corpus.WellTyped types) (kinds : List String) :
    Gives (entryPoints kinds types) fun roots => ∀ root ∈ roots, root.DeclaredBy types := by
  have hall := Gives.mapM fun t ht => TypeRecord.gives_entryPoints (h t ht) kinds
  refine hall.map fun rootss hrootss root hroot => ?_
  obtain ⟨roots, hroots, hroot⟩ := List.mem_flatten.mp hroot
  obtain ⟨t, ht, hdeclared⟩ := exists_left_of_forall₂ hrootss hroots
  exact ⟨t, ht, hdeclared root hroot⟩

namespace EntryPoint.DeclaredBy

variable {root : EntryPoint}

/-- The index knows every entry point. -/
theorem exists_method? (hroot : root.DeclaredBy types) :
    ∃ m, (Index.ofTypes types).method? root.baseFqn = some m := by
  obtain ⟨t, ht, m, hm, hbase, -⟩ := hroot
  exact Table.mem_keys_iff.mp (Index.mem_keys_ofTypes.mpr ⟨t, ht, m, hm, hbase.symm⟩)

theorem tidy_baseFqn (htidy : Corpus.TidyNames types) (hroot : root.DeclaredBy types) :
    Text.Tidy root.baseFqn := by
  obtain ⟨t, ht, m, hm, hbase, -⟩ := hroot
  exact hbase ▸ htidy.methodKey ht hm

/-- The key of an entry point is its base name as it is. -/
theorem callee?_baseFqn (htidy : Corpus.TidyNames types) (hroot : root.DeclaredBy types) :
    Call.callee? root.baseFqn = some root.baseFqn := by
  refine Call.callee?_eq_self (hroot.tidy_baseFqn htidy) fun hempty => ?_
  obtain ⟨t, -, m, -, hbase, -⟩ := hroot
  rw [hempty] at hbase
  have hlength := congrArg String.length hbase
  have hdot : ".".length = 1 := rfl
  simp only [TypeRecord.methodKey, String.length_append, String.length_empty, hdot] at hlength
  omega

/-- Entry points with the same signature have the same base name. -/
theorem baseFqn_eq (htidy : Corpus.TidyNames types) {other : EntryPoint}
    (hroot : root.DeclaredBy types) (hother : other.DeclaredBy types)
    (heq : root.signature = other.signature) : root.baseFqn = other.baseFqn := by
  have ha := hroot.tidy_baseFqn htidy
  have hb := hother.tidy_baseFqn htidy
  obtain ⟨-, -, -, -, -, parameters, hsignature⟩ := hroot
  obtain ⟨-, -, -, -, -, parameters', hsignature'⟩ := hother
  rw [hsignature, hsignature'] at heq
  exact ha.eq_of_signature_eq hb heq

end EntryPoint.DeclaredBy

end EntryFlow
