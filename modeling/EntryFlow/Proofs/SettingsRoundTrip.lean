import EntryFlow.Proofs.LowerCase
import EntryFlow.Proofs.SettingsDocument

/-!
# Settings that are checked again

Settings are checked whenever they are loaded and whenever a command replaces one of their values. A
check gives extensions a dot, kinds their lower case and the log level its upper case; a second one
finds all that done and changes nothing. So accepted settings survive their document, and replacing
the number of workers or the log level leaves the rest as it is. Numbers are only refused where they
are known to be out of range, so a time limit that is no number at all passes.

## Main definitions

* `Datum.AtLeast`, `Datum.Exceeds`: numbers in range.
* `Settings.Normal`: what holds of all accepted settings.

## Main statements

* `Settings.Normal.check_replaced`: accepted settings with other workers and another log level.
* `Settings.check_stable`: accepted settings are normal, and a second check changes nothing.
* `Settings.undefined_timeout`: a time limit that is accepted without being positive.
-/

namespace EntryFlow

/-- The number is not below `n`. -/
def Datum.AtLeast (d : Datum) (n : Int) : Prop :=
  ∃ order, d.compareInt n = .ok (some order) ∧ order ≠ .lt

/-- The number is above `n`. -/
def Datum.Exceeds (d : Datum) (n : Int) : Prop :=
  d.compareInt n = .ok (some .gt)

instance (d : Datum) (n : Int) : Decidable (d.Exceeds n) :=
  inferInstanceAs (Decidable (d.compareInt n = .ok (some .gt)))

namespace Datum

/-- Only the undefined number has no order. -/
theorem eq_undefined_of_compareInt {d : Datum} {n : Int} (h : d.compareInt n = .ok none) :
    d = .float .undefined := by
  cases d with
  | float x => cases x <;> simp_all [compareInt, Binary.compareInt?]
  | _ => cases h

theorem atLeast_int_iff {m n : Int} : (int m).AtLeast n ↔ n ≤ m := by
  simp [AtLeast, compareInt, Int.compare_eq_lt]

end Datum

namespace Settings

open Command.Arguments (given)

/-! ## What a check gives -/

/-- What holds of all accepted settings. A number that has no order is not refused. -/
structure Normal (s : Settings) : Prop where
  dotted : ∀ e ∈ s.extensions, e.toList.head? = some '.'
  lowered : ∀ kind ∈ s.entryKinds, Text.lower kind = kind
  enough : s.maxWorkers = .float .undefined ∨ s.maxWorkers.AtLeast 1
  limited : s.rootTimeout = .null ∨ s.rootTimeout = .float .undefined ∨ s.rootTimeout.Exceeds 0
  level : s.logLevel.name ∈ ["DEBUG", "INFO", "WARNING", "ERROR"]

theorem checkWorkers_eq_ok_iff {workers : Datum} :
    checkWorkers workers = .ok () ↔ workers = .float .undefined ∨ workers.AtLeast 1 := by
  rw [checkWorkers, Datum.AtLeast]
  constructor
  · intro h
    obtain ⟨order, horder, h⟩ := bind_eq_ok_iff.mp h
    cases order with
    | none => exact .inl (Datum.eq_undefined_of_compareInt horder)
    | some order =>
      refine .inr ⟨order, horder, ?_⟩
      rintro rfl
      cases h
  · rintro (rfl | ⟨order, horder, hle⟩)
    · rfl
    · rw [horder, ok_bind, if_neg (by simpa using hle)]
      rfl

theorem checkTimeout_eq_ok_iff {timeout : Datum} :
    checkTimeout timeout = .ok () ↔
      timeout = .null ∨ timeout = .float .undefined ∨ timeout.Exceeds 0 := by
  rw [checkTimeout, Datum.Exceeds]
  constructor
  · intro h
    split at h
    · rename_i hnull
      exact .inl hnull
    · obtain ⟨order, horder, h⟩ := bind_eq_ok_iff.mp h
      refine .inr ?_
      cases order with
      | none => exact .inl (Datum.eq_undefined_of_compareInt horder)
      | some order =>
        cases order with
        | gt => exact .inr horder
        | lt => cases h
        | eq => cases h
  · rintro (rfl | rfl | horder)
    · rfl
    · rfl
    · split
      · rfl
      · rw [horder]
        rfl

theorem head?_of_dotted {d : Datum} {e : String} (h : dotted d = .ok e) :
    e.toList.head? = some '.' := by
  cases d with
  | text s =>
    rw [dotted] at h
    split at h
    · rename_i hdot
      cases h
      obtain ⟨rest, hrest⟩ := List.isPrefixOf_iff_prefix.mp hdot
      rw [← hrest]
      rfl
    · cases h
      simp
  | _ => cases h

theorem dotted_text {e : String} (h : e.toList.head? = some '.') : dotted (.text e) = .ok e := by
  obtain ⟨rest, hrest⟩ := List.head?_eq_some_iff.mp h
  have hdot : ".".toList.isPrefixOf e.toList = true := by
    rw [hrest]
    rfl
  rw [dotted, if_pos hdot]

theorem Draft.Passes.normal {d : Draft} {s : Settings} (h : d.Passes s) : s.Normal where
  dotted e he := by
    obtain ⟨items, -, hitems⟩ := h.extensions
    obtain ⟨item, -, hitem⟩ := exists_left_of_forall₂ (mapM_eq_ok_iff.mp hitems) he
    exact head?_of_dotted hitem
  lowered kind hkind := by
    obtain ⟨items, -, hitems⟩ := h.entryKinds
    obtain ⟨item, -, hitem⟩ := exists_left_of_forall₂ (mapM_eq_ok_iff.mp hitems) hkind
    split at hitem
    · cases hitem
      exact Text.lower_lower _
    · cases hitem
  enough := by
    rw [h.maxWorkers]
    exact checkWorkers_eq_ok_iff.mp h.enough
  limited := by
    rw [h.rootTimeout]
    exact checkTimeout_eq_ok_iff.mp h.limited
  level := by cases s.logLevel <;> simp [Level.name]

/-! ## A second check -/

/-- Texts that a normalization leaves alone are its result. -/
theorem mapM_texts {f : Datum → Except Fault String} {names : List String}
    (h : ∀ name ∈ names, f (.text name) = .ok name) : (names.map .text).mapM f = .ok names := by
  rw [mapM_eq_ok_iff, List.forall₂_map_left_iff, List.forall₂_same]
  exact h

theorem ofName?_upper_name (level : Level) :
    Level.ofName? (Text.upper level.name) = some level := by
  cases level <;> decide +kernel

/-- The settings are accepted again with other workers and another log level if these are in range,
and then all else is as it was. -/
theorem Normal.check_replaced {s : Settings} (h : s.Normal) {workers : Datum} {name : String}
    {s' : Settings} :
    Draft.check { s.draft with maxWorkers := workers, logLevel := .text name } = .ok s' ↔
      (workers = .float .undefined ∨ workers.AtLeast 1) ∧ ∃ level,
        Level.ofName? (Text.upper name) = some level ∧
        s' = { s with maxWorkers := workers, logLevel := level } := by
  have hextensions : (s.extensions.map .text).mapM Settings.dotted = .ok s.extensions :=
    mapM_texts fun e he => dotted_text (h.dotted e he)
  have hentryKinds : lowerKinds (s.entryKinds.map .text) = .ok s.entryKinds :=
    mapM_texts fun kind hkind => congrArg Except.ok (h.lowered kind hkind)
  rw [Draft.check_eq_ok_iff, ← checkWorkers_eq_ok_iff]
  constructor
  · intro hpasses
    obtain ⟨_, ⟨⟩, hes⟩ := hpasses.extensions
    obtain ⟨_, ⟨⟩, hks⟩ := hpasses.entryKinds
    obtain ⟨_, ⟨⟩, hlevel⟩ := hpasses.logLevel
    have hextensions' : s'.extensions = s.extensions :=
      Except.ok.inj (hes.symm.trans hextensions)
    have hentryKinds' : s'.entryKinds = s.entryKinds :=
      Except.ok.inj (hks.symm.trans hentryKinds)
    refine ⟨hpasses.enough, s'.logLevel, hlevel, ?_⟩
    cases s'
    rw [mk.injEq]
    exact ⟨hextensions', hpasses.ignorePatterns, hentryKinds', hpasses.markers, hpasses.receivers,
      hpasses.maxWorkers, hpasses.rootTimeout, rfl⟩
  · rintro ⟨henough, level, hlevel, rfl⟩
    exact ⟨⟨_, rfl, hextensions⟩, rfl, ⟨_, rfl, hentryKinds⟩, rfl, rfl, rfl, rfl, henough,
      checkTimeout_eq_ok_iff.mpr h.limited, ⟨_, rfl, hlevel⟩⟩

theorem Normal.check_draft {s : Settings} (h : s.Normal) : s.draft.check = .ok s :=
  h.check_replaced.mpr ⟨h.enough, s.logLevel, ofName?_upper_name s.logLevel, rfl⟩

/-! ## Values that a command replaces -/

/-- A command changes the number of workers and the log level if its arguments say so, and nothing
else. -/
theorem Normal.override_eq_ok_iff {s : Settings} (h : s.Normal) {a : Command.Arguments}
    {s' : Settings} :
    Command.override a s = .ok s' ↔
      (∀ n ∈ a.workers, 1 ≤ n) ∧ ∃ level,
        Level.ofName? (Text.upper ((given a.logLevel).getD s.logLevel.name)) = some level ∧
        s' = { s with
          maxWorkers := (a.workers.map .int).getD s.maxWorkers
          logLevel := level } := by
  have henough : ((a.workers.map .int).getD s.maxWorkers = .float .undefined ∨
      ((a.workers.map .int).getD s.maxWorkers).AtLeast 1) ↔ ∀ n ∈ a.workers, 1 ≤ n := by
    cases a.workers with
    | none => simpa using h.enough
    | some n => simp [Datum.atLeast_int_iff]
  rw [Command.override, ← henough, ← h.check_replaced]
  split
  · rename_i hnone
    obtain ⟨hworkers, hlevel⟩ := Bool.and_eq_true_iff.mp hnone
    rw [Option.isNone_iff_eq_none.mp hworkers, Option.isNone_iff_eq_none.mp hlevel]
    change Except.ok s = .ok s' ↔ s.draft.check = .ok s'
    rw [h.check_draft]
  · cases given a.logLevel <;> rfl

/-- The level is the one whose name the draft gives in any case. -/
theorem Draft.Passes.exists_level_name {d : Draft} {s : Settings} (h : d.Passes s) :
    ∃ name, d.logLevel = .text name ∧ s.logLevel.name = Text.upper name := by
  obtain ⟨upper, hupper, hlevel⟩ := h.logLevel
  cases hname : d.logLevel with
  | text name =>
    rw [hname] at hupper
    cases hupper
    exact ⟨name, rfl, by simpa using List.find?_some hlevel⟩
  | _ =>
    rw [hname] at hupper
    cases hupper

/-- Accepted settings are normal, whatever the draft was, and their document gives them back. With
another number of workers or another log level they are accepted again exactly if that is in range,
and all else stays as it is; so it is with the arguments of a command. -/
theorem check_stable {d : Draft} {s : Settings} (h : d.check = .ok s) :
    load s.save = .ok s ∧
      (∀ workers s', Draft.check { s.draft with maxWorkers := workers } = .ok s' ↔
        (workers = .float .undefined ∨ workers.AtLeast 1) ∧
          s' = { s with maxWorkers := workers }) ∧
      (∀ name s', Draft.check { s.draft with logLevel := .text name } = .ok s' ↔
        ∃ level, Level.ofName? (Text.upper name) = some level ∧
          s' = { s with logLevel := level }) ∧
      (∀ a s', Command.override a s = .ok s' ↔
        (∀ n ∈ a.workers, 1 ≤ n) ∧ ∃ level,
          Level.ofName? (Text.upper ((given a.logLevel).getD s.logLevel.name)) = some level ∧
          s' = { s with
            maxWorkers := (a.workers.map .int).getD s.maxWorkers
            logLevel := level }) ∧
      s.Normal ∧ ∃ name, d.logLevel = .text name ∧ s.logLevel.name = Text.upper name := by
  have hpasses := Draft.check_eq_ok_iff.mp h
  have hs := hpasses.normal
  refine ⟨hs.check_draft, fun workers s' => ?_, fun name s' => ?_,
    fun _ _ => hs.override_eq_ok_iff, hs, hpasses.exists_level_name⟩
  · refine hs.check_replaced.trans (and_congr_right fun _ => ?_)
    simp [ofName?_upper_name]
  · exact hs.check_replaced.trans (and_iff_right hs.enough)

/-- Extensions with a dot, without one and without any character, kinds whose lower case depends on
where a letter stands or has more letters, and a log level with a letter that is not English. -/
def unevenDraft : Draft where
  extensions := texts ["java", ".kt", ""]
  entryKinds := texts ["ΟΔΟΣ", "İ"]
  maxWorkers := .int 4
  rootTimeout := .float (.ofRatio false 1 2)
  logLevel := .text "ınfo"

/-- What the check makes of that draft. -/
def even : Settings :=
  { default with
    extensions := [".java", ".kt", "."]
    entryKinds := ["οδος", "i̇"]
    maxWorkers := .int 4
    rootTimeout := .float (.ofRatio false 1 2) }

theorem check_stable_even :
    unevenDraft.check = .ok even ∧ load even.save = .ok even ∧ even.Normal ∧
      Command.override { workers := some 8, logLevel := some "error" } even =
        .ok { even with maxWorkers := .int 8, logLevel := .error } ∧
      ∀ s, Command.override { workers := some 0 } even ≠ .ok s := by
  have hcheck : unevenDraft.check = .ok even := by decide +kernel
  obtain ⟨hload, -, -, hoverride, hnormal, -⟩ := check_stable hcheck
  refine ⟨hcheck, hload, hnormal, (hoverride _ _).mpr ⟨?_, .error, by decide +kernel, rfl⟩,
    fun s h => ?_⟩
  · rintro n ⟨⟩
    decide
  · exact absurd (((hoverride _ _).mp h).1 0 rfl) (by decide)

/-- A time limit that is no number is neither absent nor positive, and it is accepted. -/
theorem undefined_timeout :
    ofBytes (Path.ofText "config.json") (Text.encode "\x7b\"root_timeout\": NaN\x7d") =
        .ok { default with rootTimeout := .float .undefined } ∧
      Datum.float .undefined ≠ .null ∧ ¬ (Datum.float .undefined).Exceeds 0 := by
  decide +kernel

end Settings

end EntryFlow
