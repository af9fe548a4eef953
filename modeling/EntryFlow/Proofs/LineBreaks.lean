import EntryFlow.Proofs.NormalizedCalls

/-!
# Line breaks in chains of calls

A chain of calls that is written on several lines reaches resolution with blanks before or behind
its dots. Names are read without the blanks around them, so the tiers that look up names do not see
such blanks. Three places compare texts instead: self qualifiers, logging receivers and the direct
tier. What they miss there is all that a line break changes.

## Main definitions

* `Call.LineBreak`: a dot outside brackets, and blanks around it.
* `Call.LineBreak.KeepsQualifier`, `Call.LineBreak.KeepsReceivers`, `Call.LineBreak.KeepsSignature`:
  line breaks that those three places do not read over.

## Main statements

* `Call.LineBreak.unqualified_cases`: what of a line break is left in the normalized call.
* `Call.LineBreak.segments_eq`: the names are the same.
* `Conventions.resolve_broken`: the resolution is the same.
* `Conventions.broken_resolutions`: line breaks that are read over.
-/

namespace EntryFlow

namespace Call

open Text

/-! ## Blanks before a dot -/

theorem not_mem_blank_of_mem_selfWords {word : List Char} (h : word ∈ selfWords) :
    ∀ c ∈ word, isBlank c = false := by
  have hall : selfWords.all (·.all fun c => !isBlank c) = true := by decide
  intro c hc
  have hword := List.all_eq_true.mp hall word h
  simpa using List.all_eq_true.mp hword c hc

theorem dropQualifier?_append_blanks {cs bs : List Char} (h : dropQualifier? cs = none)
    (hbs : ∀ c ∈ bs, isBlank c = true) : dropQualifier? (cs ++ bs) = none := by
  refine Option.eq_none_iff_forall_ne_some.mpr fun left hleft => ?_
  obtain ⟨word, hword, later, htext, -⟩ := dropQualifier?_eq_some_iff.mp hleft
  have hmem : '.' ∈ cs := by
    have hdot : '.' ∈ cs ++ bs := by simp [htext]
    exact (List.mem_append.mp hdot).resolve_right (not_mem_dot_of_blank hbs)
  obtain ⟨first, mid, rfl, hfirst⟩ := List.eq_append_cons_of_mem hmem
  -- the first dot of the longer text is that of the shorter one, so both begin with the same word
  rw [List.append_assoc, List.cons_append] at htext
  have hsame : first = word := by
    rcases append_dot_eq (not_mem_dot_of_mem_selfWords hword) htext with ⟨rfl, -⟩ | ⟨mid, rfl, -⟩
    · rfl
    · simp at hfirst
  rw [dropQualifier?_eq_some_iff.mpr ⟨word, hword, mid, by rw [hsame], rfl⟩] at h
  cases h

/-- Self qualifiers are dropped up to the dot with the blanks, or over it. Only where a self word
stands right before the dot do the blanks before it matter. -/
theorem dropQualifiers_blanks {front before after back : List Char}
    (hbefore : ∀ c ∈ before, isBlank c = true) (hafter : ∀ c ∈ after, isBlank c = true)
    (hkeeps : before = [] ∨ dropQualifiers front ∉ selfWords) :
    dropQualifiers (front ++ before ++ '.' :: (after ++ back)) =
        dropQualifiers (front ++ '.' :: back) ∨
      ∃ left, (∀ c ∈ left, isBlank c = true) ∧ (before = [] → left = []) ∧
        dropQualifiers (front ++ '.' :: back) = dropQualifiers front ++ '.' :: back ∧
        dropQualifiers (front ++ before ++ '.' :: (after ++ back)) =
          dropQualifiers front ++ left ++ '.' :: (after ++ back) := by
  induction front using dropQualifiers.induct generalizing before with
  | case1 front rest hrest hlt ih =>
    rw [dropQualifiers_of_some hrest] at hkeeps ⊢
    obtain ⟨word, hword, later, rfl, rfl⟩ := dropQualifier?_eq_some_iff.mp hrest
    obtain ⟨left, hleft, hnone, hstart⟩ := exists_trimStart_append later hbefore
    have hplain : dropQualifier? (word ++ '.' :: later ++ '.' :: back) =
        some (trimStart later ++ '.' :: back) := dropQualifier?_append_cons hrest (by decide) back
    have hblanks :
        dropQualifier? (word ++ '.' :: later ++ before) = some (trimStart later ++ left) :=
      dropQualifier?_eq_some_iff.mpr ⟨word, hword, later ++ before, by simp, hstart.symm⟩
    have hbroken : dropQualifier? (word ++ '.' :: later ++ before ++ '.' :: (after ++ back)) =
        some (trimStart later ++ left ++ '.' :: (after ++ back)) :=
      dropQualifier?_append_cons hblanks (by decide) _
    rw [dropQualifiers_of_some hplain, dropQualifiers_of_some hbroken]
    rcases ih hleft (hkeeps.imp_left hnone) with hsame | ⟨left', hleft', hnone', hplain, hbroken⟩
    · exact .inl hsame
    · exact .inr ⟨left', hleft', fun h => hnone' (hnone h), hplain, hbroken⟩
  | case2 front hnone =>
    rw [dropQualifiers_of_none hnone] at hkeeps ⊢
    by_cases hself : front ∈ selfWords
    · have hempty : before = [] := hkeeps.resolve_right (not_not_intro hself)
      have hdrop (rest : List Char) :
          dropQualifiers (front ++ '.' :: rest) = dropQualifiers (trimStart rest) :=
        dropQualifiers_of_some (dropQualifier?_eq_some_iff.mpr ⟨front, hself, rest, rfl, rfl⟩)
      left
      rw [hempty, List.append_nil, hdrop, hdrop, trimStart_blanks_append hafter]
    · have hself' : front ++ before ∉ selfWords := by
        intro hmem
        cases before with
        | nil => exact hself (by simpa using hmem)
        | cons c before =>
          have hblank := not_mem_blank_of_mem_selfWords hmem c (by simp)
          rw [hbefore c List.mem_cons_self] at hblank
          cases hblank
      refine .inr ⟨before, hbefore, id, ?_, ?_⟩
      · exact dropQualifiers_of_none (dropQualifier?_append_dot hnone hself _)
      · exact dropQualifiers_of_none
          (dropQualifier?_append_dot (dropQualifier?_append_blanks hnone hbefore) hself' _)

/-! ## Line breaks -/

/-- A dot of a call that stands outside all brackets, and the blanks that a line break leaves before
and behind it. -/
structure LineBreak where
  front : List Char
  before : List Char
  after : List Char
  back : List Char
  closed : Closed front
  blank_before : ∀ c ∈ before, isBlank c = true
  blank_after : ∀ c ∈ after, isBlank c = true

namespace LineBreak

/-- The call on one line. -/
def plain (b : LineBreak) : String :=
  String.ofList (b.front ++ '.' :: b.back)

/-- The call with the line break. -/
def broken (b : LineBreak) : String :=
  String.ofList (b.front ++ b.before ++ '.' :: (b.after ++ b.back))

/-- What stands before the dot, without self qualifiers. -/
def owner (b : LineBreak) : List Char :=
  dropQualifiers (trimStart b.front)

/-- No blanks come between a self word and its dot. -/
def KeepsQualifier (b : LineBreak) : Prop :=
  b.before = [] ∨ b.owner ∉ selfWords

/-- The text of a logging receiver, with its dot, leads the normalized call. -/
def Leads (receiver raw : String) : Prop :=
  receiver.toList ++ ['.'] <+: (unqualified raw).toList

/-- No logging receiver is read over the line break. One that ends at the dot may have blanks behind
the dot. -/
def KeepsReceivers (b : LineBreak) (receivers : List Datum) : Prop :=
  ∀ r, .text r ∈ receivers → b.owner <+: r.toList →
    (b.before = [] ∧ r.toList = b.owner) ∨ (¬ Leads r b.plain ∧ ¬ Leads r b.broken)

/-- No signature is read over the line break. The dot stands behind an argument list, or the call
is no signature of the index in either way of writing. -/
def KeepsSignature (b : LineBreak) (index : Index) : Prop :=
  '(' ∈ b.owner ∨ ∀ raw ∈ [b.plain, b.broken], (callee? (unqualified raw)).bind index.method? = none

/-- The call keeps its line break when it is normalized, with as many of the blanks as stand inside
the call, or the line break goes with the self qualifiers. -/
theorem unqualified_cases {b : LineBreak} (h : b.KeepsQualifier) :
    unqualified b.broken = unqualified b.plain ∨
      ∃ before after back, (∀ c ∈ before, isBlank c = true) ∧ (∀ c ∈ after, isBlank c = true) ∧
        (b.before = [] → before = []) ∧
        (unqualified b.plain).toList = b.owner ++ '.' :: back ∧
        (unqualified b.broken).toList = b.owner ++ before ++ '.' :: (after ++ back) := by
  obtain ⟨before, hbefore, hnone, hfront⟩ := exists_trimStart_append b.front b.blank_before
  obtain ⟨after, hafter, hback⟩ := exists_trimEnd_append b.blank_after b.back
  have hplain : unqualified b.plain =
      String.ofList (dropQualifiers (trimStart b.front ++ '.' :: trimEnd b.back)) := by
    rw [unqualified, plain, String.toList_ofList, trim_append_cons _ (by decide)]
  have hbroken : unqualified b.broken =
      String.ofList (dropQualifiers
        (trimStart b.front ++ before ++ '.' :: (after ++ trimEnd b.back))) := by
    rw [unqualified, broken, String.toList_ofList, trim_append_cons _ (by decide), hfront, hback]
  rw [hplain, hbroken]
  rcases dropQualifiers_blanks hbefore hafter (h.imp_left hnone) with
    hsame | ⟨left, hleft, hnone', hdrop, hdrop'⟩
  · exact .inl (congrArg String.ofList hsame)
  · refine .inr ⟨left, after, trimEnd b.back, hleft, hafter, fun hb => hnone' (hnone hb), ?_, ?_⟩
    · rw [String.toList_ofList, hdrop, owner]
    · rw [String.toList_ofList, hdrop', owner]

theorem closed_owner (b : LineBreak) : Closed b.owner := by
  rw [owner, closed_dropQualifiers]
  exact (closed_congr (filter_trimStart (fun _ => isBracket_of_isBlank) _)).mpr b.closed

/-- The names of a call do not tell whether there is a line break. -/
theorem segments_eq {b : LineBreak} (h : b.KeepsQualifier) :
    segments (unqualified b.broken) = segments (unqualified b.plain) := by
  rcases unqualified_cases h with hsame | ⟨before, after, back, hbefore, hafter, -, hplain, hbroken⟩
  · rw [hsame]
  · have hbrackets : ∀ {bs : List Char}, (∀ c ∈ bs, isBlank c = true) → bare bs = bs := fun hbs =>
      bare_of_forall fun c hc => isBracket_of_isBlank (hbs c hc)
    have hclosed : ∀ {bs : List Char}, (∀ c ∈ bs, isBlank c = true) → Closed bs := by
      intro bs hbs
      have hnone : bs.filter isBracket = ([] : List Char).filter isBracket :=
        List.filter_eq_nil_iff.mpr fun c hc => by simp [isBracket_of_isBlank (hbs c hc)]
      exact (closed_congr hnone).mpr rfl
    have hdot : ∀ rest, bare ('.' :: rest) = '.' :: bare rest := fun rest => rfl
    rw [Call.segments_eq, Call.segments_eq, hplain, hbroken, List.append_assoc,
      b.closed_owner.bare_append, b.closed_owner.bare_append, (hclosed hbefore).bare_append, hdot,
      hdot, (hclosed hafter).bare_append, hbrackets hbefore, hbrackets hafter, ← List.append_assoc,
      names_append_dot, names_append_dot, names_append_blanks _ hbefore,
      names_blanks_append hafter]

theorem isEmpty_unqualified {b : LineBreak} (h : b.KeepsQualifier) :
    (unqualified b.broken).isEmpty = (unqualified b.plain).isEmpty := by
  rcases unqualified_cases h with hsame | ⟨before, after, back, -, -, -, hplain, hbroken⟩
  · rw [hsame]
  · have hdot : ∀ {s : String} {xs ys : List Char}, s.toList = xs ++ '.' :: ys →
        s.isEmpty = false := by
      intro s xs ys hs
      refine Bool.eq_false_iff.mpr fun hempty => ?_
      simp [String.isEmpty_iff.mp hempty] at hs
    rw [hdot hplain, hdot hbroken]

/-- A logging receiver leads both ways of writing or none. -/
theorem leads_iff {b : LineBreak} {receivers : List Datum} (hq : b.KeepsQualifier)
    (hr : b.KeepsReceivers receivers) {r : String} (hmem : .text r ∈ receivers) :
    Leads r b.broken ↔ Leads r b.plain := by
  rcases unqualified_cases hq with hsame | ⟨before, after, back, -, -, hnone, hplain, hbroken⟩
  · rw [Leads, hsame, Leads]
  · by_cases howner : b.owner <+: r.toList
    · rcases hr r hmem howner with ⟨hbefore, heq⟩ | ⟨hplain, hbroken⟩
      · have hlead : ∀ rest, r.toList ++ ['.'] <+: b.owner ++ '.' :: rest := by
          intro rest
          exact ⟨rest, by simp [heq]⟩
        rw [Leads, Leads, hplain, hbroken, hnone hbefore, List.append_nil]
        exact iff_of_true (hlead _) (hlead _)
      · exact iff_of_false hbroken hplain
    · -- the receiver ends before the dot, so it is compared with the owner only
      have hshort : ∀ rest, r.toList ++ ['.'] <+: b.owner ++ rest ↔
          r.toList ++ ['.'] <+: b.owner := by
        intro rest
        constructor
        · intro hlead
          rcases List.prefix_or_prefix_of_prefix hlead (List.prefix_append b.owner rest) with h | h
          · exact h
          · rcases List.prefix_concat_iff.mp h with heq | h
            · exact heq ▸ List.prefix_rfl
            · exact absurd h howner
        · exact fun hlead => hlead.trans (List.prefix_append _ _)
      rw [Leads, Leads, hplain, hbroken, List.append_assoc, hshort, hshort]

/-- Both ways of writing are looked up as the same signature or as none. -/
theorem bind_method?_eq {b : LineBreak} {index : Index} (hq : b.KeepsQualifier)
    (hs : b.KeepsSignature index) :
    (callee? (unqualified b.broken)).bind index.method? =
      (callee? (unqualified b.plain)).bind index.method? := by
  rcases unqualified_cases hq with hsame | ⟨before, after, back, -, -, -, hplain, hbroken⟩
  · rw [hsame]
  · rcases hs with hparen | hnone
    · obtain ⟨name, arguments, howner, hname⟩ := List.eq_append_cons_of_mem hparen
      have hfront : ∀ rest, (b.owner ++ rest).takeWhile (· ≠ '(') = name := by
        intro rest
        rw [howner, List.append_assoc, List.takeWhile_append_of_pos, List.cons_append,
          List.takeWhile_cons_of_neg (by simp), List.append_nil]
        intro c hc
        simpa using fun heq : c = '(' => hname (heq ▸ hc)
      have hcallee : ∀ raw rest, (unqualified raw).toList = b.owner ++ rest →
          callee? (unqualified raw) =
            if (trim name).isEmpty then none else some (String.ofList (trim name)) := by
        intro raw rest hraw
        rw [callee?, trim_eq_self (trimmed_unqualified raw), hraw, hfront]
      rw [hcallee _ _ hplain, hcallee _ _ (hbroken.trans (List.append_assoc _ _ _))]
    · rw [hnone b.broken (by simp), hnone b.plain (by simp)]

end LineBreak

end Call

/-! ## Resolution -/

namespace Conventions

/-- A line break that is not read over does not change what a call refers to. -/
theorem resolve_broken (conventions : Conventions) (index : Index) (context : Context)
    {b : Call.LineBreak} (hq : b.KeepsQualifier) (hr : b.KeepsReceivers conventions.receivers)
    (hs : b.KeepsSignature index) :
    conventions.isLogging (.text b.broken) = conventions.isLogging (.text b.plain) ∧
      conventions.resolve index (.text b.broken) context =
        conventions.resolve index (.text b.plain) context := by
  have hlogging :
      conventions.isLogging (.text b.broken) = conventions.isLogging (.text b.plain) := by
    rw [isLogging_text, isLogging_text]
    exact startsLogging_congr fun r hmem => Call.LineBreak.leads_iff hq hr hmem
  have hempty := Call.LineBreak.isEmpty_unqualified hq
  have hsegments := Call.LineBreak.segments_eq hq
  have hdirect := Call.LineBreak.bind_method?_eq hq hs
  refine ⟨hlogging, ?_⟩
  rw [isLogging_text, isLogging_text] at hlogging
  simp only [resolve, Datum.callText_text, isLogging_text, Call.unqualified_unqualified, hlogging,
    hempty, hsegments, resolveSegments, Index.firstFound_congr hdirect]

/-- The call of a field's method, with the method on a line of its own. -/
def fieldBreak : Call.LineBreak where
  front := "this.stock".toList
  before := "\n    ".toList
  after := []
  back := "take(item)".toList
  closed := by decide
  blank_before := List.all_eq_true.mp rfl
  blank_after := List.all_eq_true.mp rfl

theorem resolve_broken_fieldBreak :
    Conventions.default.isLogging (.text "this.stock\n    .take(item)") =
        Conventions.default.isLogging (.text "this.stock.take(item)") ∧
      Conventions.default.resolve (.ofTypes Corpus.sample) (.text "this.stock\n    .take(item)")
          ⟨.text "app.Shop", [], [], []⟩ =
        Conventions.default.resolve (.ofTypes Corpus.sample) (.text "this.stock.take(item)")
          ⟨.text "app.Shop", [], [], []⟩ := by
  have hreceivers : fieldBreak.KeepsReceivers Conventions.default.receivers := by
    intro r hr howner
    simp only [Conventions.default, defaultReceivers, List.map_cons, List.map_nil, List.mem_cons,
      Datum.text.injEq, List.not_mem_nil, or_false] at hr
    rcases hr with rfl | rfl | rfl | rfl | rfl | rfl
    all_goals exact absurd howner (by decide +kernel)
  have hplain : "this.stock.take(item)" = fieldBreak.plain := by decide +kernel
  have hbroken : "this.stock\n    .take(item)" = fieldBreak.broken := by decide +kernel
  rw [hplain, hbroken]
  exact resolve_broken Conventions.default (.ofTypes Corpus.sample) ⟨.text "app.Shop", [], [], []⟩
    (show fieldBreak.KeepsQualifier from .inr (by decide +kernel)) hreceivers
    (.inr (by decide +kernel))

/-- A blank before the dot of a logging receiver, of a self qualifier or of a signature is read
over. The call is no logging call any more, or is found by another tier. -/
theorem broken_resolutions :
    ∃ index, Index.build [.offering "A" ["b", "c"]] = .ok index ∧
      (∃ b : Call.LineBreak, b.plain = "log.atInfo().log" ∧ b.broken = "log .atInfo().log" ∧
        Conventions.default.isLogging (.text b.plain) = .ok true ∧
        Conventions.default.isLogging (.text b.broken) = .ok false) ∧
      (∃ (b : Call.LineBreak) (m : Method), b.plain = "this.c()" ∧ b.broken = "this .c()" ∧
        Conventions.default.resolve index (.text b.plain) ⟨.text "A", [], [], []⟩ =
          .ok (.method m "A.c()" .bareName) ∧
        Conventions.default.resolve index (.text b.broken) ⟨.text "A", [], [], []⟩ =
          .ok (.method m "A.c()" .nameAnywhere)) ∧
      ∃ (b : Call.LineBreak) (m : Method), b.plain = "A.b(x)" ∧ b.broken = "A .b(x)" ∧
        Conventions.default.resolve index (.text b.plain) ⟨.text "A", [], [], []⟩ =
          .ok (.method m "A.b()" .direct) ∧
        Conventions.default.resolve index (.text b.broken) ⟨.text "A", [], [], []⟩ =
          .ok (.method m "A.b()" .className) := by
  refine ⟨.ofTypes [.offering "A" ["b", "c"]], rfl, ?_, ?_, ?_⟩
  · exact ⟨⟨"log".toList, [' '], [], "atInfo().log".toList, by decide,
      List.all_eq_true.mp rfl, List.all_eq_true.mp rfl⟩, rfl, rfl, by decide +kernel,
      by decide +kernel⟩
  · exact ⟨⟨"this".toList, [' '], [], "c()".toList, by decide, List.all_eq_true.mp rfl,
      List.all_eq_true.mp rfl⟩,
      (Method.calling "c" []).ownedBy (.offering "A" ["b", "c"]), rfl, rfl, by decide +kernel,
      by decide +kernel⟩
  · exact ⟨⟨"A".toList, [' '], [], "b(x)".toList, by decide, List.all_eq_true.mp rfl,
      List.all_eq_true.mp rfl⟩,
      (Method.calling "b" []).ownedBy (.offering "A" ["b", "c"]), rfl, rfl, by decide +kernel,
      by decide +kernel⟩

end Conventions

end EntryFlow
