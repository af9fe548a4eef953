import EntryFlow.Disk
import EntryFlow.Path
import EntryFlow.Proofs.Result
import EntryFlow.Proofs.Table

/-!
# Files of one directory

Writing a file changes the entry of its name in its directory and nothing else there. So a file is
read back as it was written until one of the same name is written, and whether a file can be written
does not depend on the others that were.

## Main definitions

* `Disk.Opens`: names that lead to a directory of a disk.
* `Disk.IsName`: names that files have.
* `Disk.Writable`: paths that a file can be written to.

## Main statements

* `FileTree.at?_put`, `FileTree.at?_put_directory`: directories after a file was put into one.
* `Disk.Leads.read_eq`, `Disk.Leads.write_eq`: files of a directory that is opened.
* `Disk.read_write`, `Disk.read_write_of_ne`, `Disk.Writable.write`: the files of a directory after
  one of them was written.
-/

namespace EntryFlow

namespace FileTree

variable {α : Type} {t : FileTree α} {place names : List String} {name : String}
  {entries found : List (String × FileTree α)}

theorem at?_append (names others : List String) :
    t.at? (names ++ others) = (t.at? names).bind (·.at? others) := by
  induction names generalizing t with
  | nil => rfl
  | cons name names ih =>
    rw [List.cons_append, at?, at?, Option.bind_assoc]
    simp only [ih]

/-- The way to a directory begins with an entry of a directory. -/
theorem exists_entry (h : t.at? (name :: names) = some (.directory found)) :
    ∃ es child, t = .directory es ∧ Table.find? es name = some child ∧
      child.at? names = some (.directory found) := by
  obtain ⟨child, hchild, hfound⟩ := Option.bind_eq_some_iff.mp h
  cases t with
  | file content => cases hchild
  | directory es => exact ⟨es, child, rfl, hchild, hfound⟩

/-- A tree that is put into a directory is an entry of it. -/
theorem at?_put (h : t.at? place = some (.directory entries)) (x : FileTree α) :
    (put x (place ++ [name]) t).at? place = some (.directory (Table.set entries name x)) := by
  induction place generalizing t with
  | nil =>
    cases h
    rfl
  | cons first place ih =>
    obtain ⟨es, child, rfl, hchild, hfound⟩ := exists_entry h
    rw [List.cons_append, put, at?, FileTree.entries, Table.find?_set, if_pos rfl, hchild]
    exact ih hfound

/-- Directories stay directories and keep their names when a tree is put where none is. -/
theorem at?_put_directory (h : t.at? place = some (.directory entries))
    (hfree : ∀ es, Table.find? entries name ≠ some (.directory es)) (x : FileTree α)
    (hnames : t.at? names = some (.directory found)) :
    ∃ found', (put x (place ++ [name]) t).at? names = some (.directory found') ∧
      ∀ n, Table.has found n → Table.has found' n := by
  induction names generalizing t place with
  | nil =>
    cases hnames
    cases place with
    | nil =>
      refine ⟨_, rfl, fun n hn => ?_⟩
      rw [Table.has_iff] at hn ⊢
      exact Table.mem_keys_set.mpr (.inl hn)
    | cons first place =>
      refine ⟨_, rfl, fun n hn => ?_⟩
      rw [Table.has_iff] at hn ⊢
      exact Table.mem_keys_set.mpr (.inl hn)
  | cons next names ih =>
    obtain ⟨es, child, rfl, hchild, hfound⟩ := exists_entry hnames
    cases place with
    | nil =>
      cases h
      by_cases hnext : name = next
      · subst hnext
        cases child with
        | file content =>
          cases names with
          | nil => cases hfound
          | cons _ _ => cases hfound
        | directory inner => exact absurd hchild (hfree inner)
      · refine ⟨found, ?_, fun _ hn => hn⟩
        rw [List.nil_append, put, at?, FileTree.entries, Table.find?_set, if_neg hnext, hchild]
        exact hfound
    | cons first place =>
      obtain ⟨es', child', hes, hchild', hplace⟩ := exists_entry h
      cases hes
      by_cases hnext : first = next
      · subst hnext
        cases hchild.symm.trans hchild'
        obtain ⟨found', hfound', hkeeps⟩ := ih hplace hfound
        refine ⟨found', ?_, hkeeps⟩
        rw [List.cons_append, put, at?, FileTree.entries, Table.find?_set, if_pos rfl, hchild]
        exact hfound'
      · refine ⟨found, ?_, fun _ hn => hn⟩
        rw [List.cons_append, put, at?, FileTree.entries, Table.find?_set, if_neg hnext, hchild]
        exact hfound

end FileTree

namespace Disk

variable {disk next : Disk}

/-! ## Directories that are opened -/

/-- Every directory of the first disk is one of the second, with all its names. -/
def Extends (disk next : Disk) : Prop :=
  ∀ place entries, disk.at? place = some (.directory entries) →
    ∃ entries', next.at? place = some (.directory entries') ∧
      ∀ name, Table.has entries name → Table.has entries' name

theorem exists_directory_of_step {place after : List String} {name : String}
    (h : disk.step place name = .ok after) :
    ∃ entries, disk.at? place = some (.directory entries) := by
  rw [step] at h
  split at h
  · cases h
  · cases h
  · exact ⟨_, by assumption⟩

namespace Extends

variable (h : disk.Extends next)
include h

theorem step {place after : List String} {name : String}
    (hstep : disk.step place name = .ok after) : next.step place name = .ok after := by
  obtain ⟨entries, hentries⟩ := exists_directory_of_step hstep
  obtain ⟨entries', hentries', hkeeps⟩ := h place entries hentries
  rw [Disk.step, hentries] at hstep
  rw [Disk.step, hentries']
  grind

theorem foldlM_step {names place after : List String}
    (hnames : names.foldlM disk.step place = .ok after) :
    names.foldlM next.step place = .ok after := by
  induction names generalizing place with
  | nil => exact hnames
  | cons name names ih =>
    obtain ⟨middle, hmiddle, hrest⟩ := bind_eq_ok_iff.mp hnames
    exact bind_eq_ok_iff.mpr ⟨middle, h.step hmiddle, ih hrest⟩

end Extends

/-- The names lead from the root to a place where the disk has a directory with the entries. -/
structure Opens (disk : Disk) (names place : List String) (entries : List (String × Disk)) :
    Prop where
  follows : names.foldlM disk.step [] = .ok place
  opened : disk.at? place = some (.directory entries)

/-- What is put into a directory, where none is, closes no way. -/
theorem Opens.put {names place : List String} {entries : List (String × Disk)} {name : String}
    (h : disk.Opens names place entries)
    (hfree : ∀ es, Table.find? entries name ≠ some (.directory es)) (x : Disk) :
    Opens (FileTree.put x (place ++ [name]) disk) names place (Table.set entries name x) where
  follows :=
    have hextends : disk.Extends (FileTree.put x (place ++ [name]) disk) := fun _ _ hfound =>
      FileTree.at?_put_directory h.opened hfree x hfound
    hextends.foldlM_step h.follows
  opened := FileTree.at?_put h.opened x

/-! ## Files below a directory -/

/-- A name that a file may have. -/
def IsName (name : String) : Prop :=
  '/' ∉ name.toList ∧ isDots name = false

/-- The steps of a path are its parts, and it does not start at a root. -/
theorem of_steps_eq_ok {path : String} {names : List String} (h : steps path = .ok names) :
    names = partsOf path ∧ path.toList.head? ≠ some '/' := by
  rw [steps] at h
  split at h
  · cases h
  · split at h
    · cases h
    · rename_i hstart
      refine ⟨(Except.ok.inj h).symm, fun hslash => hstart ?_⟩
      obtain ⟨rest, hrest⟩ := List.head?_eq_some_iff.mp hslash
      rw [hrest]
      simp

/-- The way to a name below a directory is the way to the directory and that name. -/
structure Leads (path : String) (names : List String) (name : String) : Prop where
  steps_eq : steps path = .ok (names ++ [name])
  isName : IsName name

namespace Leads

variable {path name : String} {names : List String} (h : Leads path names name)
include h

theorem ne_empty : name ≠ "" := by
  rintro rfl
  exact absurd h.isName.2 (by decide)

theorem namesDirectory_eq : namesDirectory path = false := by
  rw [namesDirectory, decide_eq_false_iff_not]
  intro hlast
  obtain ⟨front, hfront⟩ := List.getLast?_eq_some_iff.mp hlast
  -- a slash at the end would leave an empty part behind it
  have hparts := (of_steps_eq_ok h.steps_eq).1.symm
  rw [partsOf, hfront, List.splitOn_append_cons_self, List.splitOn_nil, List.map_append] at hparts
  exact h.ne_empty (List.append_inj_right' hparts rfl |> List.singleton_inj.mp).symm

omit h in
/-- Nothing is taken off a path that does not end in a slash. -/
theorem strip_eq (hname : name ≠ "") :
    ((names ++ [name]).reverse.dropWhile (·.isEmpty)).reverse = names ++ [name] := by
  rw [List.reverse_append, List.reverse_singleton, List.singleton_append,
    List.dropWhile_cons_of_neg (by simpa using hname)]
  simp

/-- The last name of a path stands in the directory that is opened. -/
theorem parent_eq {place : List String} {entries : List (String × Disk)}
    (hopens : disk.Opens names place entries) : disk.parent path =
      if maxName < name.utf8ByteSize then .error .nameTooLong
      else .ok (place, entries, name) := by
  rw [parent, h.steps_eq, ok_bind]
  simp only [strip_eq h.ne_empty, List.dropLast_concat, List.getLast?_concat, Option.getD_some]
  rw [hopens.follows, ok_bind, hopens.opened]
  by_cases hlong : maxName < name.utf8ByteSize
  · simp only [if_pos hlong]
    rfl
  · simp only [if_neg hlong]
    rfl

/-- A path whose last name stands in a directory opens it. -/
theorem exists_opens {result : List String × List (String × Disk) × String}
    (hparent : disk.parent path = .ok result) :
    ∃ place entries, disk.Opens names place entries := by
  rw [parent, h.steps_eq, ok_bind] at hparent
  simp only [strip_eq h.ne_empty, List.dropLast_concat] at hparent
  obtain ⟨place, hplace, hrest⟩ := bind_eq_ok_iff.mp hparent
  cases hat : disk.at? place with
  | none => rw [hat] at hrest; cases hrest
  | some t =>
    cases t with
    | file content => rw [hat] at hrest; cases hrest
    | directory entries => exact ⟨place, entries, hplace, hat⟩

/-- What a file below a directory that is opened holds. -/
theorem read_eq {place : List String} {entries : List (String × Disk)}
    (hopens : disk.Opens names place entries) : disk.read path =
      if maxName < name.utf8ByteSize then .error .nameTooLong
      else
        match Table.find? entries name with
        | none => .error .noEntry
        | some (.file bytes) => .ok bytes
        | some (.directory _) => .error .isDirectory := by
  have hlocate : disk.locate path = disk.step place name := by
    rw [locate, h.steps_eq, ok_bind, List.foldlM_append, hopens.follows, ok_bind]
    exact bind_pure _
  have hat : disk.at? (place ++ [name]) = Table.find? entries name := by
    rw [FileTree.at?_append, hopens.opened]
    exact Option.bind_fun_some _
  have hdots := h.isName.2
  simp only [isDots, Bool.or_eq_false_iff, decide_eq_false_iff_not] at hdots
  have hstep : disk.step place name =
      if maxName < name.utf8ByteSize then .error .nameTooLong
      else if Table.has entries name then .ok (place ++ [name]) else .error .noEntry := by
    rw [step, hopens.opened]
    simp only [hdots, decide_false, Bool.or_self, Bool.false_eq_true, if_false]
  rw [read, lookup, hlocate, hstep]
  split
  · rfl
  · cases hfind : Table.find? entries name with
    | none =>
      rw [Table.has, hfind]
      rfl
    | some child =>
      rw [Table.has, hfind, Option.isSome_some, if_pos rfl, ok_bind, hat, hfind]
      cases child <;> rfl

theorem write_eq {place : List String} {entries : List (String × Disk)} (bytes : List UInt8)
    (hopens : disk.Opens names place entries) : disk.write path bytes =
      if maxName < name.utf8ByteSize then .error .nameTooLong
      else
        match Table.find? entries name with
        | some (.directory _) => .error .isDirectory
        | _ => .ok (FileTree.put (.file bytes) (place ++ [name]) disk) := by
  rw [write, h.parent_eq hopens]
  by_cases hlong : maxName < name.utf8ByteSize
  · rw [if_pos hlong, if_pos hlong]
    rfl
  · rw [if_neg hlong, if_neg hlong, ok_bind]
    simp only [h.namesDirectory_eq, h.isName.2]
    cases Table.find? entries name with
    | none => rfl
    | some child => cases child <;> rfl

/-- A file can be written unless its name is too long or that of a directory. -/
theorem exists_write_iff {place : List String} {entries : List (String × Disk)}
    {bytes : List UInt8} (hopens : disk.Opens names place entries) :
    (∃ next, disk.write path bytes = .ok next) ↔
      ¬ maxName < name.utf8ByteSize ∧ ∀ es, Table.find? entries name ≠ some (.directory es) := by
  rw [h.write_eq bytes hopens]
  split
  · simp_all
  · split <;> simp_all

/-- A file that is written is an entry of a directory that was there before. -/
theorem opens_of_write {bytes : List UInt8} (hwrite : disk.write path bytes = .ok next) :
    ∃ place entries, disk.Opens names place entries ∧
      next.Opens names place (Table.set entries name (.file bytes)) ∧
      ¬ maxName < name.utf8ByteSize := by
  obtain ⟨_, hparent, -⟩ := bind_eq_ok_iff.mp hwrite
  obtain ⟨place, entries, hopens⟩ := h.exists_opens hparent
  rw [h.write_eq bytes hopens] at hwrite
  split at hwrite
  · cases hwrite
  · rename_i hlong
    split at hwrite
    · cases hwrite
    · rename_i hfree
      cases hwrite
      exact ⟨place, entries, hopens, hopens.put (fun es hes => hfree es hes) _, hlong⟩

end Leads

/-! ## Files of one directory -/

theorem notMem_of_mem_splitOn {cs piece : List Char} {c : Char} (h : piece ∈ cs.splitOn c) :
    c ∉ piece := by
  induction hn : cs.length using Nat.strongRecOn generalizing cs with
  | ind n ih =>
    by_cases hc : c ∈ cs
    · obtain ⟨front, back, rfl, hfront⟩ := List.eq_append_cons_of_mem hc
      rw [List.splitOn_append_cons_self_of_not_mem hfront] at h
      rcases List.mem_cons.mp h with rfl | h
      · exact hfront
      · exact ih back.length (by simp at hn; omega) h rfl
    · rw [List.splitOn_eq_singleton hc, List.mem_singleton] at h
      rwa [h]

theorem notMem_of_mem_names {directory name : String}
    (h : name ∈ (Path.ofText directory).names) : '/' ∉ name.toList := by
  obtain ⟨hname, -⟩ := List.mem_filter.mp h
  obtain ⟨piece, hpiece, rfl⟩ := List.mem_map.mp hname
  rw [String.toList_ofList]
  exact notMem_of_mem_splitOn hpiece

theorem text_child (p : Path) (name : String) :
    (p.child name).text = p.root ++ "/".intercalate (p.names ++ [name]) := by
  simp [Path.text, Path.child]

theorem rootOf_eq_empty_or (cs : List Char) :
    Path.rootOf cs = "" ∨ (Path.rootOf cs).toList.head? = some '/' := by
  fun_cases Path.rootOf cs <;> decide

/-- Only a relative path can be followed. -/
theorem root_eq_empty {directory name : String} {names : List String}
    (h : steps ((Path.ofText directory).child name).text = .ok names) :
    (Path.ofText directory).root = "" := by
  refine (rootOf_eq_empty_or directory.toList).resolve_right fun hslash => ?_
  refine (of_steps_eq_ok h).2 ?_
  rw [text_child, String.toList_append, List.head?_append]
  exact congrArg (Option.or · _) hslash

theorem partsOf_intercalate {names : List String} (hnames : ∀ name ∈ names, '/' ∉ name.toList)
    (hne : names ≠ []) : partsOf ("/".intercalate names) = names := by
  have hsplit : ("/".intercalate names).toList.splitOn '/' = names.map String.toList := by
    rw [String.toList_intercalate]
    refine List.splitOn_intercalate '/' ?_ (by simpa using hne)
    rintro piece hpiece
    obtain ⟨name, hname, rfl⟩ := List.mem_map.mp hpiece
    exact hnames name hname
  rw [partsOf, hsplit, List.map_map]
  simp

/-- The path of a name below a directory, if it can be followed, leads through the names of the
directory. -/
theorem leads_child {directory name : String} (hname : IsName name) {names : List String}
    (h : steps ((Path.ofText directory).child name).text = .ok names) :
    Leads ((Path.ofText directory).child name).text (Path.ofText directory).names name := by
  refine ⟨h.trans (congrArg _ ?_), hname⟩
  rw [(of_steps_eq_ok h).1]
  have htext : ((Path.ofText directory).child name).text =
      "/".intercalate ((Path.ofText directory).names ++ [name]) := by
    rw [text_child, root_eq_empty h, String.empty_append]
  rw [htext]
  refine partsOf_intercalate (fun n hn => ?_) (by simp)
  rcases List.mem_append.mp hn with hn | hn
  · exact notMem_of_mem_names hn
  · cases List.mem_singleton.mp hn
    exact hname.1

variable {directory name other : String} {bytes : List UInt8}

theorem leads_of_write (hname : IsName name)
    (h : disk.write ((Path.ofText directory).child name).text bytes = .ok next) :
    Leads ((Path.ofText directory).child name).text (Path.ofText directory).names name := by
  obtain ⟨_, hparent, -⟩ := bind_eq_ok_iff.mp h
  obtain ⟨_, hsteps, -⟩ := bind_eq_ok_iff.mp hparent
  exact leads_child hname hsteps

/-- A file that was written is read back. -/
theorem read_write (hname : IsName name)
    (h : disk.write ((Path.ofText directory).child name).text bytes = .ok next) :
    next.read ((Path.ofText directory).child name).text = .ok bytes := by
  have hleads := leads_of_write hname h
  obtain ⟨_, _, -, hnext, hlong⟩ := hleads.opens_of_write h
  rw [hleads.read_eq hnext, if_neg hlong, Table.find?_set, if_pos rfl]

/-- The other files of the directory hold what they held. -/
theorem read_write_of_ne (hname : IsName name) (hother : IsName other) (hne : name ≠ other)
    (h : disk.write ((Path.ofText directory).child name).text bytes = .ok next) :
    next.read ((Path.ofText directory).child other).text =
      disk.read ((Path.ofText directory).child other).text := by
  obtain ⟨_, _, hdisk, hnext, -⟩ := (leads_of_write hname h).opens_of_write h
  cases hsteps : steps ((Path.ofText directory).child other).text with
  | error cause =>
    rw [read, read, lookup, lookup, locate, locate, hsteps]
    rfl
  | ok names =>
    have hleads := leads_child hother hsteps
    rw [hleads.read_eq hdisk, hleads.read_eq hnext, Table.find?_set, if_neg hne]

/-- A file can be written to the path. -/
def Writable (disk : Disk) (path : String) : Prop :=
  ∃ next, disk.write path [] = .ok next

/-- What a file is to hold does not decide whether it can be written. -/
theorem Writable.exists_write (hname : IsName name)
    (h : disk.Writable ((Path.ofText directory).child name).text) (bytes : List UInt8) :
    ∃ next, disk.write ((Path.ofText directory).child name).text bytes = .ok next := by
  obtain ⟨next, hwrite⟩ := h
  have hleads := leads_of_write hname hwrite
  obtain ⟨_, _, hdisk, -⟩ := hleads.opens_of_write hwrite
  exact (hleads.exists_write_iff hdisk).mpr ((hleads.exists_write_iff hdisk).mp ⟨next, hwrite⟩)

/-- A file that can be written still can after one of the directory was. -/
theorem Writable.write (hname : IsName name) (hother : IsName other)
    (hw : disk.Writable ((Path.ofText directory).child other).text)
    (h : disk.write ((Path.ofText directory).child name).text bytes = .ok next) :
    next.Writable ((Path.ofText directory).child other).text := by
  obtain ⟨_, _, hdisk, hnext, -⟩ := (leads_of_write hname h).opens_of_write h
  have hleads := leads_of_write hother hw.choose_spec
  obtain ⟨hlong, hfree⟩ := (hleads.exists_write_iff hdisk).mp hw
  refine (hleads.exists_write_iff hnext).mpr ⟨hlong, fun es => ?_⟩
  rw [Table.find?_set]
  split
  · intro hfile
    cases hfile
  · exact hfree es

end Disk

end EntryFlow
