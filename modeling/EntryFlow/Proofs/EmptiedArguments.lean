import EntryFlow.Proofs.NormalizedCalls

/-!
# Emptied arguments

A call may come with the text of its arguments or with its argument lists emptied. Emptying keeps
all that stands outside the outermost parentheses, also where they do not match. So it can be done
before or after a call is normalized, and all that resolution compares or counts is the same both
ways.

## Main statements

* `Call.trim_emptyArgumentsFrom`, `Call.dropQualifiers_emptyArgumentsFrom`,
  `Call.unqualified_emptyArguments`: emptied arguments in the steps of normalization.
* `Call.prefix_emptyArgumentsFrom_iff`: up to a parenthesis the text is the same.
* `Conventions.resolve_emptyArguments`: the resolution is the same.
-/

namespace EntryFlow

namespace Call

open Text

/-! ## Up to the first parenthesis -/

/-- Outside parentheses every character is kept, a closing parenthesis too. -/
theorem emptyArgumentsFrom_cons {c : Char} (hc : c ≠ '(') (cs : List Char) :
    emptyArgumentsFrom 0 (c :: cs) = c :: emptyArgumentsFrom 0 cs := by
  rw [emptyArgumentsFrom, if_neg hc]
  split
  · rename_i hclose
    rw [hclose, if_pos (Nat.zero_le 1)]
  · rfl

theorem emptyArgumentsFrom_append {xs : List Char} (h : '(' ∉ xs) (ys : List Char) :
    emptyArgumentsFrom 0 (xs ++ ys) = xs ++ emptyArgumentsFrom 0 ys := by
  induction xs with
  | nil => rfl
  | cons c xs ih =>
    obtain ⟨hc, hxs⟩ := List.ne_and_not_mem_of_not_mem_cons h
    rw [List.cons_append, emptyArgumentsFrom_cons hc.symm, ih hxs, List.cons_append]

theorem head?_emptyArgumentsFrom (cs : List Char) :
    (emptyArgumentsFrom 0 cs).head? = cs.head? := by
  cases cs with
  | nil => rfl
  | cons c cs =>
    by_cases hc : c = '('
    · rw [hc]
      rfl
    · rw [emptyArgumentsFrom_cons hc]
      rfl

theorem emptyArgumentsFrom_eq_nil_iff {cs : List Char} :
    emptyArgumentsFrom 0 cs = [] ↔ cs = [] := by
  rw [← List.head?_eq_none_iff, head?_emptyArgumentsFrom, List.head?_eq_none_iff]

/-- Where no parenthesis is looked for, emptied arguments make no difference. -/
theorem prefix_emptyArgumentsFrom_iff {p cs : List Char} (hp : '(' ∉ p) :
    p <+: emptyArgumentsFrom 0 cs ↔ p <+: cs := by
  induction p generalizing cs with
  | nil => exact iff_of_true List.nil_prefix List.nil_prefix
  | cons a p ih =>
    obtain ⟨ha, hp⟩ := List.ne_and_not_mem_of_not_mem_cons hp
    cases cs with
    | nil => rfl
    | cons c cs =>
      by_cases hc : c = '('
      · -- the text is different behind the parenthesis, but no prefix gets so far
        have hparen : ∀ rest : List Char, ¬ a :: p <+: '(' :: rest := fun rest hpre =>
          ha.symm (List.cons_prefix_cons.mp hpre).1
        rw [hc, emptyArgumentsFrom, if_pos rfl, if_pos rfl]
        exact iff_of_false (hparen _) (hparen _)
      · rw [emptyArgumentsFrom_cons hc, List.cons_prefix_cons, List.cons_prefix_cons, ih hp]

theorem takeWhile_emptyArgumentsFrom (cs : List Char) :
    (emptyArgumentsFrom 0 cs).takeWhile (· ≠ '(') = cs.takeWhile (· ≠ '(') := by
  induction cs with
  | nil => rfl
  | cons c cs ih =>
    by_cases hc : c = '('
    · rw [hc, emptyArgumentsFrom, if_pos rfl, if_pos rfl]
      rfl
    · rw [emptyArgumentsFrom_cons hc, List.takeWhile_cons_of_pos (by simpa using hc), ih,
        List.takeWhile_cons_of_pos (by simpa using hc)]

/-! ## Normalization -/

theorem trimStart_emptyArgumentsFrom (cs : List Char) :
    trimStart (emptyArgumentsFrom 0 cs) = emptyArgumentsFrom 0 (trimStart cs) := by
  have hblanks : ∀ c ∈ cs.takeWhile isBlank, isBlank c = true := fun c => List.mem_takeWhile_imp
  have hparen : '(' ∉ cs.takeWhile isBlank := fun hmem => absurd (hblanks _ hmem) (by decide)
  have hhead : ∀ c ∈ (emptyArgumentsFrom 0 (trimStart cs)).head?, isBlank c = false := by
    rw [head?_emptyArgumentsFrom]
    exact head?_trimStart cs
  have hcs : cs = cs.takeWhile isBlank ++ trimStart cs := List.takeWhile_append_dropWhile.symm
  rw [hcs, emptyArgumentsFrom_append hparen, trimStart_blanks_append hblanks, ← hcs,
    trimStart_eq_self hhead]

theorem trimEnd_emptyArgumentsFrom (depth : Nat) (cs : List Char) :
    trimEnd (emptyArgumentsFrom depth cs) = emptyArgumentsFrom depth (trimEnd cs) := by
  have hparens : isBlank '(' = false ∧ isBlank ')' = false := by decide
  fun_induction emptyArgumentsFrom depth cs with
  | case1 => rfl
  | case2 cs ih => simp [trimEnd_cons, emptyArgumentsFrom, hparens, ih]
  | case3 depth cs hdepth ih => simp [trimEnd_cons, emptyArgumentsFrom, hparens, hdepth, ih]
  | case4 depth cs hdepth _ ih => simp [trimEnd_cons, emptyArgumentsFrom, hparens, hdepth, ih]
  | case5 depth cs hdepth _ ih => simp [trimEnd_cons, emptyArgumentsFrom, hparens, hdepth, ih]
  | case6 c cs hopen hclose ih =>
    simp only [trimEnd_cons, ih, emptyArgumentsFrom_eq_nil_iff]
    split
    · rfl
    · rw [emptyArgumentsFrom_cons hopen]
  | case7 depth c cs hopen hclose hdepth ih =>
    -- inside parentheses the character goes in any case, at the end or as a part of the arguments
    rw [trimEnd_cons, ih]
    split
    · rename_i hblank
      rw [hblank.2]
    · rw [emptyArgumentsFrom, if_neg hopen, if_neg hclose, if_neg hdepth]

theorem trim_emptyArgumentsFrom (cs : List Char) :
    trim (emptyArgumentsFrom 0 cs) = emptyArgumentsFrom 0 (trim cs) := by
  rw [trim, trimStart_emptyArgumentsFrom, trimEnd_emptyArgumentsFrom, trim]

theorem dropQualifier?_emptyArgumentsFrom (cs : List Char) :
    dropQualifier? (emptyArgumentsFrom 0 cs) = (dropQualifier? cs).map (emptyArgumentsFrom 0) := by
  have hparen : ∀ q ∈ selfQualifiers, '(' ∉ q := by decide
  cases hcs : dropQualifier? cs with
  | some rest =>
    obtain ⟨q, hq, later, rfl, rfl⟩ := exists_of_dropQualifier? hcs
    rw [emptyArgumentsFrom_append (hparen q hq), dropQualifier?_append hq,
      trimStart_emptyArgumentsFrom]
    rfl
  | none =>
    rw [dropQualifier?_eq_none_iff] at hcs
    refine dropQualifier?_eq_none_iff.mpr fun q hq hpre => hcs q hq ?_
    exact (prefix_emptyArgumentsFrom_iff (hparen q hq)).mp hpre

theorem dropQualifiers_emptyArgumentsFrom (cs : List Char) :
    dropQualifiers (emptyArgumentsFrom 0 cs) = emptyArgumentsFrom 0 (dropQualifiers cs) := by
  induction cs using dropQualifiers.induct with
  | case1 cs rest hrest hlt ih =>
    have hdrop : dropQualifier? (emptyArgumentsFrom 0 cs) = some (emptyArgumentsFrom 0 rest) := by
      rw [dropQualifier?_emptyArgumentsFrom, hrest]
      rfl
    rw [dropQualifiers_of_some hdrop, ih, dropQualifiers_of_some hrest]
  | case2 cs hnone =>
    have hkeep : dropQualifier? (emptyArgumentsFrom 0 cs) = none := by
      rw [dropQualifier?_emptyArgumentsFrom, hnone]
      rfl
    rw [dropQualifiers_of_none hkeep, dropQualifiers_of_none hnone]

/-- Arguments can be emptied before a call is normalized or after it. -/
theorem unqualified_emptyArguments (raw : String) :
    unqualified (emptyArguments raw) = emptyArguments (unqualified raw) := by
  rw [unqualified, emptyArguments, String.toList_ofList, trim_emptyArgumentsFrom,
    dropQualifiers_emptyArgumentsFrom, unqualified, emptyArguments, String.toList_ofList]

/-! ## What is read in a call -/

theorem segments_emptyArguments (call : String) : segments (emptyArguments call) = segments call := by
  rw [segments_eq, emptyArguments, String.toList_ofList, bare_emptyArgumentsFrom, segments_eq]

theorem callee?_emptyArguments (call : String) : callee? (emptyArguments call) = callee? call := by
  simp only [callee?, emptyArguments, String.toList_ofList, trim_emptyArgumentsFrom,
    takeWhile_emptyArgumentsFrom]

theorem isEmpty_emptyArguments (call : String) : (emptyArguments call).isEmpty = call.isEmpty := by
  rw [Bool.eq_iff_iff, String.isEmpty_iff, String.isEmpty_iff, ← String.toList_inj,
    ← String.toList_inj, emptyArguments, String.toList_ofList]
  exact emptyArgumentsFrom_eq_nil_iff

end Call

namespace Conventions

/-- Logging receivers are looked for before the first parenthesis. -/
theorem startsLogging_emptyArguments {receivers : List Datum}
    (h : ∀ r, .text r ∈ receivers → '(' ∉ r.toList) (call : String) :
    startsLogging (Call.emptyArguments call).toList receivers =
      startsLogging call.toList receivers := by
  refine startsLogging_congr fun r hr => ?_
  have hparen : '(' ∉ r.toList ++ ['.'] := by simpa using h r hr
  rw [Call.emptyArguments, String.toList_ofList, Call.prefix_emptyArgumentsFrom_iff hparen]

/-- What stands in the argument lists of a call matters neither for its names nor for what it refers
to. Only a logging receiver with a parenthesis could tell. -/
theorem resolve_emptyArguments (conventions : Conventions) (index : Index) (context : Context)
    (hreceivers : ∀ r, .text r ∈ conventions.receivers → '(' ∉ r.toList) (raw : String) :
    conventions.resolve index (.text (Call.emptyArguments raw)) context =
        conventions.resolve index (.text raw) context ∧
      Call.segments (Call.emptyArguments raw) = Call.segments raw := by
  have hnormal := Call.unqualified_emptyArguments raw
  refine ⟨resolve_congr ?_ ?_ ?_ ?_, Call.segments_emptyArguments raw⟩
  · rw [hnormal, Call.isEmpty_emptyArguments]
  · rw [hnormal, startsLogging_emptyArguments hreceivers]
  · rw [hnormal, Call.segments_emptyArguments]
  · rw [hnormal, Call.callee?_emptyArguments]

/-- A signature with arguments that are not closed. -/
theorem resolve_emptyArguments_open :
    (∀ r, .text r ∈ Conventions.default.receivers → '(' ∉ r.toList) ∧
      Conventions.default.resolve (.ofTypes Corpus.sample) (.text "this.app.Stock.take(")
          ⟨.text "app.Shop", [], [], []⟩ =
        Conventions.default.resolve (.ofTypes Corpus.sample)
          (.text "this.app.Stock.take(order.item(), log.of(") ⟨.text "app.Shop", [], [], []⟩ ∧
      Call.segments "this.app.Stock.take(" =
        Call.segments "this.app.Stock.take(order.item(), log.of(" := by
  have hreceivers : ∀ r, .text r ∈ Conventions.default.receivers → '(' ∉ r.toList := by
    intro r hr
    simp only [Conventions.default, defaultReceivers, List.map_cons, List.map_nil, List.mem_cons,
      Datum.text.injEq, List.not_mem_nil, or_false] at hr
    rcases hr with rfl | rfl | rfl | rfl | rfl | rfl <;> decide
  have hempty : "this.app.Stock.take(" =
      Call.emptyArguments "this.app.Stock.take(order.item(), log.of(" := by decide +kernel
  refine ⟨hreceivers, ?_⟩
  rw [hempty]
  exact resolve_emptyArguments Conventions.default (.ofTypes Corpus.sample)
    ⟨.text "app.Shop", [], [], []⟩ hreceivers _

end Conventions

end EntryFlow
