import EntryFlow.Name.Call
import EntryFlow.Proofs.Trim
import EntryFlow.Proofs.WellTyped

/-!
# Names that signatures tell

Where no name of a corpus has an opening parenthesis, a signature tells the method that it belongs
to: the base name is what stands before the first parenthesis. Where names have no blanks around
them either, a base name is a key of its own. A framework call has a label with a blank before its
parentheses, so where names have no blanks at all no label is a signature.

## Main definitions

* `Text.Tidy`, `Corpus.TidyNames`: no opening parentheses and no blanks at the ends.
* `Text.Plain`, `Corpus.PlainNames`: no opening parentheses and no blanks.

## Main statements

* `Call.callee?_eq_self`: a tidy name is its own callee.
* `Text.Tidy.eq_of_signature_eq`: a signature tells its base name.
* `frameworkLabel_ne_signature`: a label is not a signature.
-/

namespace EntryFlow

namespace Text

/-- The text has no opening parenthesis, and no blanks at its ends. -/
structure Tidy (s : String) : Prop where
  unopened : '(' ∉ s.toList
  trimmed : Trimmed s.toList

/-- The text has neither blanks nor opening parentheses. -/
def Plain (s : String) : Prop :=
  ∀ c ∈ s.toList, c ≠ '(' ∧ isBlank c = false

instance (s : String) : Decidable (Tidy s) :=
  decidable_of_iff ('(' ∉ s.toList ∧ Trimmed s.toList) ⟨fun ⟨a, b⟩ => ⟨a, b⟩, fun ⟨a, b⟩ => ⟨a, b⟩⟩

instance (s : String) : Decidable (Plain s) :=
  List.decidableBAll (fun c => c ≠ '(' ∧ isBlank c = false) s.toList

theorem Plain.tidy {s : String} (h : Plain s) : Tidy s where
  unopened hopen := (h _ hopen).1 rfl
  trimmed := .of_forall fun c hc => (h c hc).2

theorem Tidy.append {a b : String} (ha : Tidy a) (hb : Tidy b) : Tidy (a ++ b) where
  unopened := by
    rw [String.toList_append, List.mem_append]
    exact fun hopen => hopen.elim ha.unopened hb.unopened
  trimmed := by
    rw [String.toList_append]
    exact ha.trimmed.append hb.trimmed

theorem Plain.append {a b : String} (ha : Plain a) (hb : Plain b) : Plain (a ++ b) := by
  intro c hc
  rw [String.toList_append, List.mem_append] at hc
  exact hc.elim (ha c) (hb c)

/-- Before the first parenthesis of a signature stands the base name. -/
theorem Tidy.takeWhile_signature {base : String} (h : Tidy base) (parameters : String) :
    (base ++ "(" ++ parameters ++ ")").toList.takeWhile (· ≠ '(') = base.toList := by
  have hbase : ∀ c ∈ base.toList, decide (c ≠ '(') = true :=
    fun c hc => decide_eq_true fun hopen => h.unopened (hopen ▸ hc)
  rw [String.append_assoc, String.append_assoc, String.toList_append,
    List.takeWhile_append_of_pos hbase]
  simp

theorem Tidy.eq_of_signature_eq {a b parameters other : String} (ha : Tidy a) (hb : Tidy b)
    (h : a ++ "(" ++ parameters ++ ")" = b ++ "(" ++ other ++ ")") : a = b := by
  have hheads := ha.takeWhile_signature parameters
  rw [h, hb.takeWhile_signature] at hheads
  exact String.toList_inj.mp hheads.symm

end Text

open Text

theorem Call.callee?_eq_self {s : String} (h : Tidy s) (hne : s ≠ "") : callee? s = some s := by
  have hopen : s.toList.takeWhile (· ≠ '(') = s.toList :=
    List.takeWhile_eq_self_iff.mpr fun c hc =>
      decide_eq_true fun hopen => h.unopened (hopen ▸ hc)
  have hne : s.toList ≠ [] := fun hnil => hne (String.toList_inj.mp hnil)
  rw [callee?, trim_eq_self h.trimmed, hopen, trim_eq_self h.trimmed]
  simp [hne]

/-- The mark of framework calls has a blank in it, which no signature has before its parentheses. -/
theorem Text.Plain.not_marked {base : String} (h : Plain base) (parameters : String) :
    ¬ frameworkPrefix.toList <+: (base ++ "(" ++ parameters ++ ")").toList := by
  rintro ⟨rest, hrest⟩
  have hhead := h.tidy.takeWhile_signature parameters
  have hopen : ∀ c ∈ frameworkPrefix.toList, decide (c ≠ '(') = true :=
    List.all_eq_true.mp (by decide)
  rw [← hrest, List.takeWhile_append_of_pos hopen] at hhead
  have hblank : ' ' ∈ base.toList := by
    rw [← hhead]
    exact List.mem_append_left _ (by decide)
  exact absurd (h _ hblank).2 (by decide)

theorem frameworkLabel_ne_signature {base : String} (h : Plain base) (parameters : String)
    (category name : String) : frameworkLabel category name ≠ base ++ "(" ++ parameters ++ ")" := by
  intro heq
  apply h.not_marked parameters
  rw [← heq, frameworkLabel, String.append_assoc, String.append_assoc, String.append_assoc,
    String.toList_append]
  exact List.prefix_append _ _

/-! ## Corpora with such names -/

/-- No name of a type or a method has an opening parenthesis or blanks at its ends. -/
def Corpus.TidyNames (types : List TypeRecord) : Prop :=
  ∀ t ∈ types, Tidy t.fqn.display ∧ ∀ m ∈ t.methodList, Tidy m.name.display

/-- No name of a type or a method has blanks or an opening parenthesis. -/
def Corpus.PlainNames (types : List TypeRecord) : Prop :=
  ∀ t ∈ types, Plain t.fqn.display ∧ ∀ m ∈ t.methodList, Plain m.name.display

instance (types : List TypeRecord) : Decidable (Corpus.TidyNames types) :=
  inferInstanceAs
    (Decidable (∀ t ∈ types, Tidy t.fqn.display ∧ ∀ m ∈ t.methodList, Tidy m.name.display))

instance (types : List TypeRecord) : Decidable (Corpus.PlainNames types) :=
  inferInstanceAs
    (Decidable (∀ t ∈ types, Plain t.fqn.display ∧ ∀ m ∈ t.methodList, Plain m.name.display))

variable {types : List TypeRecord}

theorem Corpus.PlainNames.tidyNames (h : Corpus.PlainNames types) : Corpus.TidyNames types :=
  fun t ht => ⟨(h t ht).1.tidy, fun m hm => ((h t ht).2 m hm).tidy⟩

theorem Corpus.TidyNames.methodKey (h : Corpus.TidyNames types) {t : TypeRecord} (ht : t ∈ types)
    {m : Method} (hm : m ∈ t.methodList) : Tidy (t.methodKey m) := by
  obtain ⟨hfqn, hnames⟩ := h t ht
  exact (hfqn.append (by decide)).append (hnames m hm)

theorem Corpus.PlainNames.methodKey (h : Corpus.PlainNames types) {t : TypeRecord} (ht : t ∈ types)
    {m : Method} (hm : m ∈ t.methodList) : Plain (t.methodKey m) := by
  obtain ⟨hfqn, hnames⟩ := h t ht
  exact (hfqn.append (by decide)).append (hnames m hm)

theorem Corpus.PlainNames.baseFqn (h : Corpus.PlainNames types) (htypes : Corpus.WellTyped types)
    {m : Method} (hm : m ∈ (Index.ofTypes types).methodList) : Plain m.baseFqn := by
  obtain ⟨key, hkey⟩ := Index.mem_methodList_iff.mp hm
  obtain ⟨t, ht, n, hn, heq⟩ := Index.exists_of_mem_methods hkey
  rw [← (Index.wellFormed_ofTypes htypes).keyed _ hkey, heq]
  exact h.methodKey ht hn

end EntryFlow
