import EntryFlow.Proofs.IgnoredPaths
import EntryFlow.Proofs.Result
import EntryFlow.Proofs.Table
import Mathlib.Data.List.Infix

/-!
# The sources that a scan finds

A scan goes down a directory tree and leaves out ignored directories with all that is in them. The
sources it finds are the files with a known extension that are not ignored themselves, less those in
a directory whose path ends like a pattern with a star: such a pattern is made for files, but the
scan asks it about directories too. All other patterns ignore what is in a directory that they
ignore, so nothing is lost through them.

## Main definitions

* `FileTree.NamesApart`: no directory has two entries of the same name.
* `Settings.Precedes`: the order from the top down.
* `Settings.Kept`: the files that are found.
* `Settings.Hidden`: the files in a directory whose path ends like a pattern with a star.

## Main statements

* `Settings.lists_directory`: what is found in a directory, from what is found in its directories.
* `Settings.gives_sourcesFrom`: what is found below a tree.
* `Settings.sources_kept`: the sources of a directory, and which ignored directories matter.
* `Settings.sources_lost`: a file that is not ignored, in a directory that is.
-/

namespace EntryFlow

namespace FileTree

variable {α : Type}

mutual

/-- No two entries of a directory have the same name. -/
def NamesApart : FileTree α → Prop
  | file _ => True
  | directory entries => (entries.map Prod.fst).Nodup ∧ AllNamesApart entries

/-- No two entries of a directory in the trees of some entries have the same name. -/
def AllNamesApart : List (String × FileTree α) → Prop
  | [] => True
  | (_, t) :: rest => NamesApart t ∧ AllNamesApart rest

end

/-- The paths of the files of a tree. -/
def paths (t : FileTree α) : List (List String) :=
  t.files.map Prod.fst

theorem mem_filesOf_iff {entries : List (String × FileTree α)} {f : List String × α} :
    f ∈ filesOf entries ↔ ∃ e ∈ entries, ∃ q ∈ e.2.files, (e.1 :: q.1, q.2) = f := by
  induction entries with
  | nil => simp [filesOf]
  | cons e entries ih =>
    obtain ⟨name, t⟩ := e
    rw [filesOf, List.mem_append, ih, List.mem_map]
    simp only [List.mem_cons, or_and_right, exists_or, exists_eq_left]

/-- A file of a directory is in one of its entries. -/
theorem mem_paths_directory {entries : List (String × FileTree α)} {p : List String} :
    p ∈ (directory entries).paths ↔ ∃ e ∈ entries, ∃ q ∈ e.2.paths, p = e.1 :: q := by
  rw [paths, files, List.mem_map]
  constructor
  · rintro ⟨f, hf, rfl⟩
    obtain ⟨e, he, q, hq, rfl⟩ := mem_filesOf_iff.mp hf
    exact ⟨e, he, q.1, List.mem_map_of_mem hq, rfl⟩
  · rintro ⟨e, he, q, hq, rfl⟩
    obtain ⟨f, hf, rfl⟩ := List.mem_map.mp hq
    exact ⟨(e.1 :: f.1, f.2), mem_filesOf_iff.mpr ⟨e, he, f, hf, rfl⟩, rfl⟩

theorem mem_paths_of_not_isDirectory {t : FileTree α} (h : ¬ t.isDirectory) {p : List String} :
    p ∈ t.paths ↔ p = [] := by
  cases t with
  | file content => simp [paths, files]
  | directory entries => exact absurd rfl h

theorem ne_nil_of_mem_paths {t : FileTree α} (h : t.isDirectory) {p : List String}
    (hp : p ∈ t.paths) : p ≠ [] := by
  cases t with
  | file content => cases h
  | directory entries =>
    obtain ⟨e, -, q, -, rfl⟩ := mem_paths_directory.mp hp
    exact List.cons_ne_nil _ _

end FileTree

namespace Settings

/-- A path comes before another one from the top down: the files of a directory by name, then all
that is in its directories, and these by name. -/
inductive Precedes : List String → List String → Prop where
  | files {a b : String} : a < b → Precedes [a] [b]
  | fileFirst {a b : String} {q : List String} : q ≠ [] → Precedes [a] (b :: q)
  | directories {a b : String} {p q : List String} :
      a < b → p ≠ [] → q ≠ [] → Precedes (a :: p) (b :: q)
  | inside {a : String} {p q : List String} : Precedes p q → Precedes (a :: p) (a :: q)

/-- A file that is found, given the directory below which its path is: its extension is known, and
neither the file nor a directory on the way to it is ignored. -/
structure Kept (s : Settings) (patterns below path : List String) : Prop where
  extension : Path.suffixOf (path.getLast?.getD "") ∈ s.extensions
  read : ¬ isIgnored patterns (below ++ path)
  entered : ∀ d, d ≠ [] → d <+: path → d ≠ path → ¬ isIgnored patterns (below ++ d)

/-- A directory on the way to a file has a path that ends like a pattern with a star. -/
def Hidden (patterns path : List String) : Prop :=
  ∃ d, d ≠ [] ∧ d <+: path ∧ d ≠ path ∧
    ∃ pattern ∈ patterns, isStarred pattern ∧ matchesPath pattern d

theorem Precedes.ne {p q : List String} (h : Precedes p q) : p ≠ q := by
  induction h with
  | files hlt =>
    rintro ⟨⟩
    exact String.lt_irrefl _ hlt
  | fileFirst hne =>
    rintro ⟨⟩
    exact hne rfl
  | directories hlt =>
    rintro ⟨⟩
    exact String.lt_irrefl _ hlt
  | inside _ ih =>
    rintro ⟨⟩
    exact ih rfl

theorem precedes_append {p q : List String} (h : Precedes p q) (below : List String) :
    Precedes (below ++ p) (below ++ q) := by
  induction below with
  | nil => exact h
  | cons name below ih => exact .inside ih

section Kept

variable {s : Settings} {patterns below : List String} {name : String}

theorem kept_singleton_iff :
    s.Kept patterns below [name] ↔
      Path.suffixOf name ∈ s.extensions ∧ ¬ isIgnored patterns (below ++ [name]) := by
  constructor
  · exact fun h => ⟨h.extension, h.read⟩
  · rintro ⟨hextension, hread⟩
    refine ⟨hextension, hread, fun d hne hprefix hproper => ?_⟩
    rcases List.prefix_cons_iff.mp hprefix with rfl | ⟨rest, rfl, hrest⟩
    · exact absurd rfl hne
    · rw [List.prefix_nil.mp hrest] at hproper
      exact absurd rfl hproper

theorem kept_cons_iff {path : List String} (hpath : path ≠ []) :
    s.Kept patterns below (name :: path) ↔
      ¬ isIgnored patterns (below ++ [name]) ∧ s.Kept patterns (below ++ [name]) path := by
  have hjoin (d : List String) : below ++ name :: d = below ++ [name] ++ d := by simp
  constructor
  · intro h
    refine ⟨h.entered [name] (List.cons_ne_nil _ _) ⟨path, rfl⟩ (by simpa using hpath.symm), ?_⟩
    constructor
    · have hextension := h.extension
      rwa [List.getLast?_cons_of_ne_nil hpath] at hextension
    · rw [← hjoin]
      exact h.read
    · intro d _ hprefix hproper
      rw [← hjoin]
      exact h.entered _ (List.cons_ne_nil _ _) ((List.prefix_cons_inj name).mpr hprefix)
        fun heq => hproper (List.cons_inj_right name |>.mp heq)
  · rintro ⟨hname, h⟩
    constructor
    · rw [List.getLast?_cons_of_ne_nil hpath]
      exact h.extension
    · rw [hjoin]
      exact h.read
    · intro d hne hprefix hproper
      rcases List.prefix_cons_iff.mp hprefix with rfl | ⟨rest, rfl, hrest⟩
      · exact absurd rfl hne
      · by_cases hend : rest = []
        · rwa [hend]
        · rw [hjoin]
          exact h.entered rest hend hrest fun heq => hproper (heq ▸ rfl)

/-- Only the patterns with a star make a difference between a file and the directories on the way
to it. -/
theorem kept_iff_not_hidden {path : List String} :
    s.Kept patterns [] path ↔
      Path.suffixOf (path.getLast?.getD "") ∈ s.extensions ∧ ¬ isIgnored patterns path ∧
        ¬ Hidden patterns path := by
  constructor
  · rintro ⟨hextension, hread, hentered⟩
    refine ⟨hextension, hread, ?_⟩
    rintro ⟨d, hne, hprefix, hproper, pattern, hmem, -, hmatch⟩
    exact hentered d hne hprefix hproper (List.any_eq_true.mpr ⟨pattern, hmem, hmatch⟩)
  · rintro ⟨hextension, hread, hhidden⟩
    refine ⟨hextension, hread, fun d hne hprefix hproper hignored => ?_⟩
    obtain ⟨pattern, hmem, hmatch⟩ := List.any_eq_true.mp hignored
    by_cases hstar : isStarred pattern
    · exact hhidden ⟨d, hne, hprefix, hproper, pattern, hmem, hstar, hmatch⟩
    · exact hread (List.any_eq_true.mpr
        ⟨pattern, hmem, matchesPath_below hstar hne hprefix hmatch⟩)

end Kept

/-- What is found below a tree: the files that are kept, from the top down. -/
structure Lists {α : Type} (s : Settings) (patterns below : List String) (t : FileTree α)
    (found : List (List String)) : Prop where
  mem_iff : ∀ p, p ∈ found ↔
    ∃ q, q ≠ [] ∧ q ∈ t.paths ∧ s.Kept patterns below q ∧ p = below ++ q
  sorted : found.Pairwise Precedes

/-- A directory that is gone into has the same name as what is found in it. -/
def Found {α : Type} (s : Settings) (patterns below : List String) (e : String × FileTree α)
    (n : String × List (List String)) : Prop :=
  n.1 = e.1 ∧ s.Lists patterns (below ++ [e.1]) e.2 n.2

/-- The directories among some entries that are gone into. -/
def entered {α : Type} (patterns below : List String) (entries : List (String × FileTree α)) :
    List (String × FileTree α) :=
  entries.filter fun e => e.2.isDirectory && !isIgnored patterns (below ++ [e.1])

/-- The names of the files among some entries that are read, in order. -/
def readNames {α : Type} (s : Settings) (patterns below : List String)
    (entries : List (String × FileTree α)) : List String :=
  ((byName (entries.filter fun e => !e.2.isDirectory)).map Prod.fst).filter fun name =>
    decide (Path.suffixOf name ∈ s.extensions) && !isIgnored patterns (below ++ [name])

/-! ## Names in order -/

section Names

variable {β : Type} {entries : List (String × β)}

theorem mem_byName_iff {e : String × β} : e ∈ byName entries ↔ e ∈ entries :=
  List.mem_mergeSort

theorem sorted_byName (h : (entries.map Prod.fst).Nodup) :
    (byName entries).Pairwise fun a b => a.1 < b.1 := by
  have hle : (byName entries).Pairwise fun a b => a.1 ≤ b.1 := by
    have htrans (a b c : String × β) (hab : decide (a.1 ≤ b.1)) (hbc : decide (b.1 ≤ c.1)) :
        decide (a.1 ≤ c.1) = true :=
      decide_eq_true (String.le_trans (of_decide_eq_true hab) (of_decide_eq_true hbc))
    have htotal (a b : String × β) : (decide (a.1 ≤ b.1) || decide (b.1 ≤ a.1)) = true := by
      simpa using String.le_total a.1 b.1
    exact (List.pairwise_mergeSort htrans htotal entries).imp of_decide_eq_true
  have hne : (byName entries).Pairwise fun a b => a.1 ≠ b.1 := by
    have hperm := (List.mergeSort_perm entries fun a b => decide (a.1 ≤ b.1)).map Prod.fst
    exact List.pairwise_map.mp (hperm.nodup_iff.mpr h)
  exact (hle.and hne).imp fun ⟨hab, hne⟩ =>
    String.not_le.mp fun hba => hne (String.le_antisymm hab hba)

end Names

/-! ## What is found in a directory -/

variable {α : Type} {s : Settings} {patterns below : List String}

theorem Found.exists_eq {e : String × FileTree α} {n : String × List (List String)}
    (h : s.Found patterns below e n) {p : List String} (hp : p ∈ n.2) :
    ∃ q, q ≠ [] ∧ p = below ++ n.1 :: q := by
  obtain ⟨hname, hlists⟩ := h
  obtain ⟨q, hne, -, -, rfl⟩ := (hlists.mem_iff p).mp hp
  exact ⟨q, hne, by rw [hname, List.append_assoc, List.singleton_append]⟩

/-- The files found in the directories among some entries. -/
theorem mem_flatMap_found {entries : List (String × FileTree α)}
    {nested : List (String × List (List String))}
    (h : List.Forall₂ (s.Found patterns below) entries nested) {p : List String} :
    p ∈ (byName nested).flatMap Prod.snd ↔
      ∃ e ∈ entries, ∃ q, q ≠ [] ∧ q ∈ e.2.paths ∧ s.Kept patterns (below ++ [e.1]) q ∧
        p = below ++ e.1 :: q := by
  have hjoin (e : String × FileTree α) (q : List String) :
      below ++ [e.1] ++ q = below ++ e.1 :: q := by simp
  simp only [List.mem_flatMap, mem_byName_iff]
  induction h with
  | nil => simp
  | @cons e n entries nested hfound _ ih =>
    simp only [List.mem_cons, or_and_right, exists_or, exists_eq_left, ih, hfound.2.mem_iff, hjoin]

theorem mem_readNames_iff {entries : List (String × FileTree α)} {name : String} :
    name ∈ s.readNames patterns below entries ↔
      (∃ e ∈ entries, ¬ e.2.isDirectory ∧ e.1 = name) ∧ s.Kept patterns below [name] := by
  rw [readNames, List.mem_filter, List.mem_map, kept_singleton_iff]
  simp only [mem_byName_iff, List.mem_filter, Bool.and_eq_true, decide_eq_true_eq,
    Bool.not_eq_true', Bool.not_eq_true, and_assoc]

theorem sorted_readNames {entries : List (String × FileTree α)}
    (h : (entries.map Prod.fst).Nodup) :
    (s.readNames patterns below entries).Pairwise (· < ·) :=
  (List.pairwise_map.mpr (sorted_byName (h.sublist (List.filter_sublist.map _)))).filter _

theorem nodup_names_nested {entries : List (String × FileTree α)}
    {nested : List (String × List (List String))}
    (h : List.Forall₂ (s.Found patterns below) entries nested)
    (hnames : (entries.map Prod.fst).Nodup) : (nested.map Prod.fst).Nodup := by
  have hsame : nested.map Prod.fst = entries.map Prod.fst := by
    induction h with
    | nil => rfl
    | cons hfound _ ih =>
      rw [List.map_cons, List.map_cons, hfound.1, ih (List.nodup_cons.mp hnames).2]
  rwa [hsame]

/-- The files of a directory are found, then those of its directories that are not ignored. -/
theorem lists_directory {entries : List (String × FileTree α)}
    {nested : List (String × List (List String))} (hnames : (entries.map Prod.fst).Nodup)
    (h : List.Forall₂ (s.Found patterns below) (entered patterns below entries) nested) :
    s.Lists patterns below (.directory entries)
      ((s.readNames patterns below entries).map (fun name => below ++ [name]) ++
        (byName nested).flatMap Prod.snd) where
  mem_iff p := by
    rw [List.mem_append, List.mem_map, mem_flatMap_found h]
    constructor
    · rintro (⟨name, hname, rfl⟩ | ⟨e, he, q, hne, hq, hkept, rfl⟩)
      · obtain ⟨⟨e, he, hfile, rfl⟩, hkept⟩ := mem_readNames_iff.mp hname
        refine ⟨[e.1], List.cons_ne_nil _ _, ?_, hkept, rfl⟩
        exact FileTree.mem_paths_directory.mpr
          ⟨e, he, [], (FileTree.mem_paths_of_not_isDirectory hfile).mpr rfl, rfl⟩
      · obtain ⟨he, henter⟩ := List.mem_filter.mp he
        refine ⟨e.1 :: q, List.cons_ne_nil _ _,
          FileTree.mem_paths_directory.mpr ⟨e, he, q, hq, rfl⟩, ?_, rfl⟩
        exact (kept_cons_iff hne).mpr ⟨by simp_all, hkept⟩
    · rintro ⟨path, -, hpath, hkept, rfl⟩
      obtain ⟨e, he, q, hq, rfl⟩ := FileTree.mem_paths_directory.mp hpath
      by_cases hdirectory : e.2.isDirectory
      · have hne := FileTree.ne_nil_of_mem_paths hdirectory hq
        obtain ⟨henter, hkept⟩ := (kept_cons_iff hne).mp hkept
        refine .inr ⟨e, List.mem_filter.mpr ⟨he, ?_⟩, q, hne, hq, hkept, rfl⟩
        rw [hdirectory, Bool.true_and, Bool.not_eq_true', eq_false_of_ne_true henter]
      · rw [(FileTree.mem_paths_of_not_isDirectory hdirectory).mp hq] at hkept ⊢
        exact .inl ⟨e.1, mem_readNames_iff.mpr ⟨⟨e, he, hdirectory, rfl⟩, hkept⟩, rfl⟩
  sorted := by
    have hnested := sorted_byName
      (nodup_names_nested h (hnames.sublist (List.filter_sublist.map _)))
    have hfound : ∀ n ∈ byName nested, ∃ e ∈ entered patterns below entries,
        s.Found patterns below e n :=
      fun n hn => exists_left_of_forall₂ h (mem_byName_iff.mp hn)
    refine List.pairwise_append.mpr ⟨?_, List.pairwise_flatMap.mpr ⟨?_, ?_⟩, ?_⟩
    · refine List.pairwise_map.mpr ((sorted_readNames hnames).imp fun hlt => ?_)
      exact precedes_append (.files hlt) below
    · intro n hn
      obtain ⟨e, -, -, hlists⟩ := hfound n hn
      exact hlists.sorted
    · refine hnested.imp_of_mem fun hm hn hlt p hp q hq => ?_
      obtain ⟨d, -, hd⟩ := hfound _ hm
      obtain ⟨e, -, he⟩ := hfound _ hn
      obtain ⟨p, hpne, rfl⟩ := hd.exists_eq hp
      obtain ⟨q, hqne, rfl⟩ := he.exists_eq hq
      exact precedes_append (.directories hlt hpne hqne) below
    · intro p hp q hq
      obtain ⟨name, -, rfl⟩ := List.mem_map.mp hp
      obtain ⟨n, hn, hq⟩ := List.mem_flatMap.mp hq
      obtain ⟨e, -, he⟩ := hfound n hn
      obtain ⟨q, hqne, rfl⟩ := he.exists_eq hq
      exact precedes_append (.fileFirst hqne) below

/-! ## The scan -/

section Scan

variable (hpatterns : s.ignorePatterns = texts patterns)
include hpatterns

theorem sourceNames_eq (below : List String) (entries : List (String × FileTree α)) :
    s.sourceNames below entries = .ok (s.readNames patterns below entries) := by
  refine filterM_eq_ok fun name _ => ?_
  rw [isSource]
  split
  · rename_i hextension
    rw [ignores_eq hpatterns, decide_eq_true hextension, Bool.true_and]
    rfl
  · rename_i hextension
    rw [decide_eq_false hextension, Bool.false_and]

mutual

/-- The scan of a tree finds the files that are kept. -/
theorem gives_sourcesFrom (below : List String) :
    ∀ t : FileTree α, t.NamesApart → Gives (s.sourcesFrom below t) (s.Lists patterns below t)
  | .file content, _ => by
    refine .ok ⟨fun p => iff_of_false List.not_mem_nil ?_, .nil⟩
    rintro ⟨q, hne, hq, -⟩
    have hfile : ¬ (FileTree.file content).isDirectory := Bool.false_ne_true
    exact hne ((FileTree.mem_paths_of_not_isDirectory hfile).mp hq)
  | .directory entries, hnames => by
    rw [FileTree.NamesApart] at hnames
    rw [sourcesFrom, sourceNames_eq hpatterns]
    exact (gives_nestedSources below entries hnames.2).bind fun nested hnested =>
      .ok (lists_directory hnames.1 hnested)

/-- The scan goes into the directories that are not ignored. -/
theorem gives_nestedSources (below : List String) :
    ∀ entries : List (String × FileTree α), FileTree.AllNamesApart entries →
      Gives (s.nestedSources below entries)
        (List.Forall₂ (s.Found patterns below) (entered patterns below entries))
  | [], _ => .ok .nil
  | (name, t) :: entries, hnames => by
    rw [FileTree.AllNamesApart] at hnames
    rw [nestedSources]
    refine (gives_nestedSources below entries hnames.2).bind fun nested hnested => ?_
    rw [entered, List.filter_cons]
    by_cases hdirectory : t.isDirectory
    · rw [if_pos hdirectory, ignores_eq hpatterns, hdirectory, Bool.true_and]
      cases hignored : isIgnored patterns (below ++ [name]) with
      | true => exact .ok hnested
      | false =>
        exact (gives_sourcesFrom (below ++ [name]) t hnames.1).bind fun found hfound =>
          .ok (.cons ⟨rfl, hfound⟩ hnested)
    · rw [if_neg hdirectory, eq_false_of_ne_true hdirectory, Bool.false_and]
      exact .ok hnested

end

end Scan

/-- The sources of a directory come from the top down. They are the files with a known extension
that are not ignored themselves, less those in a directory whose path ends like a pattern with a
star. Any other pattern that ignores a directory ignores all that is in it. -/
theorem sources_kept {entries : List (String × FileTree α)}
    (hpatterns : s.ignorePatterns = texts patterns)
    (hnames : (FileTree.directory entries).NamesApart) :
    (∃ found, s.sources (.directory entries) = .ok found ∧ found.Pairwise Precedes ∧
      found.Nodup ∧
      ∀ p, p ∈ found ↔ p ∈ (FileTree.directory entries).paths ∧
        Path.suffixOf (p.getLast?.getD "") ∈ s.extensions ∧
        s.ignores (pathText p) = .ok false ∧ ¬ Hidden patterns p) ∧
    ∀ pattern, ¬ isStarred pattern → ∀ d p, d ≠ [] → d <+: p →
      matchesPath pattern d → matchesPath pattern p := by
  obtain ⟨found, hfound, hlists⟩ := gives_sourcesFrom hpatterns [] (.directory entries) hnames
  refine ⟨⟨found, hfound, hlists.sorted, hlists.sorted.imp Precedes.ne, fun p => ?_⟩,
    fun _ hstar _ _ hd hp hmatch => matchesPath_below hstar hd hp hmatch⟩
  have hread : s.ignores (pathText p) = .ok false ↔ ¬ isIgnored patterns p := by
    rw [ignores_eq hpatterns, Except.ok.injEq, Bool.not_eq_true]
  rw [hlists.mem_iff, hread, ← kept_iff_not_hidden]
  constructor
  · rintro ⟨q, -, hpath, hkept, rfl⟩
    exact ⟨hpath, hkept⟩
  · rintro ⟨hpath, hkept⟩
    exact ⟨p, FileTree.ne_nil_of_mem_paths rfl hpath, hpath, hkept, rfl⟩

/-- The settings that apply without a configuration, with other patterns. -/
def ignoring (patterns : List String) : Settings :=
  { Settings.default with ignorePatterns := texts patterns }

/-- Sources by hand, a test and generated sources. -/
def project : List (String × FileTree Unit) :=
  [("src", .directory [("App.java", .file ()), ("AppTest.java", .file ())]),
    ("generated", .directory [("Stub.java", .file ())])]

/-- A source is found, a test and a generated source are not. -/
theorem sources_kept_project :
    ∃ found, (ignoring ["target", "/generated", "*Test.java"]).sources (.directory project) =
        .ok found ∧
      ["src", "App.java"] ∈ found ∧ ["src", "AppTest.java"] ∉ found ∧
      ["generated", "Stub.java"] ∉ found := by
  have hnames : (FileTree.directory project).NamesApart := by
    simp [project, FileTree.NamesApart, FileTree.AllNamesApart]
  obtain ⟨⟨found, hfound, -, -, hiff⟩, -⟩ := sources_kept
    (s := ignoring ["target", "/generated", "*Test.java"]) rfl hnames
  have hvisible : ¬ Hidden ["target", "/generated", "*Test.java"] ["src", "App.java"] := by
    have hinits : ∀ d ∈ ["src", "App.java"].inits,
        ∀ pattern ∈ ["target", "/generated", "*Test.java"],
          d ≠ [] → d ≠ ["src", "App.java"] → ¬ (isStarred pattern ∧ matchesPath pattern d) := by
      decide +kernel
    rintro ⟨d, hne, hprefix, hproper, pattern, hmem, hmatch⟩
    exact hinits d ((List.mem_inits _ _).mpr hprefix) pattern hmem hne hproper hmatch
  refine ⟨found, hfound, (hiff _).mpr ⟨by decide +kernel, by decide +kernel, by decide +kernel,
    hvisible⟩, fun h => ?_, fun h => ?_⟩
  · exact absurd ((hiff _).mp h).2.2.1 (by decide +kernel)
  · exact absurd ((hiff _).mp h).2.2.1 (by decide +kernel)

/-- A pattern for the names of files ignores the directory that a file is in, and the file with it,
though it is not ignored itself. -/
theorem sources_lost :
    ["unitTests", "A.java"] ∈
        (FileTree.directory [("unitTests", .directory [("A.java", .file ())])]).paths ∧
      Path.suffixOf "A.java" ∈ (ignoring ["*Tests"]).extensions ∧
      (ignoring ["*Tests"]).ignores (pathText ["unitTests", "A.java"]) = .ok false ∧
      (ignoring ["*Tests"]).sources
        (.directory [("unitTests", .directory [("A.java", .file ())])]) = .ok [] := by
  decide +kernel

end Settings

end EntryFlow
