import EntryFlow.Diagram.File
import EntryFlow.Proofs.Disk
import EntryFlow.Proofs.Session

/-!
# Diagrams that share a file

Every trace with steps is written to one directory under a safe name. Unsafe characters become
underscores, and so different entry points may share a name; the file then holds the diagram of the
last one. Where no two names are the same, no diagram is lost.

## Main definitions

* `Diagram.drawn`: the traces that have a diagram.
* `Diagram.pathOf`: the file of an entry point.
* `Diagram.lastNamed?`: the trace whose diagram a file holds in the end.

## Main statements

* `Diagram.isName_fileName`: file names are names in one directory.
* `Diagram.exists_writeAll`: what the files of the directory hold after all traces were written.
* `Diagram.overloads_share`: diagrams of two overloads in one file.
-/

namespace EntryFlow.Diagram

/-! ## File names -/

theorem isSafe_of_mem_safeText {cs : List Char} {c : Char} (h : c ∈ safeText cs) : isSafe c := by
  fun_induction safeText cs with
  | case1 => cases h
  | case2 d cs hd ih =>
    rcases List.mem_cons.mp h with rfl | h
    · exact hd
    · exact ih h
  | case3 d hd e cs he ih =>
    rcases List.mem_cons.mp h with rfl | h
    · decide
    · exact ih h
  | case4 d hd e cs he ih => exact ih h
  | case5 d hd =>
    cases List.mem_singleton.mp h
    decide

theorem mem_of_mem_trimUnderscores {cs : List Char} {c : Char} (h : c ∈ trimUnderscores cs) :
    c ∈ cs := by
  have hfront := (List.dropWhile_suffix (· = '_')).subset (List.mem_reverse.mp h)
  exact (List.dropWhile_suffix (· = '_')).subset (List.mem_reverse.mp hfront)

/-- The name of a diagram's file may stand in any directory. -/
theorem isName_fileName (entry : String) : Disk.IsName (fileName entry) := by
  constructor
  · intro hslash
    rw [fileName, String.toList_append] at hslash
    rcases List.mem_append.mp hslash with hstem | hend
    · split at hstem
      · exact absurd hstem (by decide)
      · rw [String.toList_ofList] at hstem
        exact absurd (isSafe_of_mem_safeText (mem_of_mem_trimUnderscores hstem)) (by decide)
    · exact absurd hend (by decide)
  · have hlong : ∀ stem : String, Disk.isDots (stem ++ ".puml") = false := by
      intro stem
      simp only [Disk.isDots, Bool.or_eq_false_iff, decide_eq_false_iff_not, ← String.toList_inj,
        String.toList_append]
      refine ⟨⟨?_, ?_⟩, ?_⟩ <;> exact fun h => absurd (congrArg List.length h) (by simp)
    exact hlong _

/-! ## Files in the end -/

/-- The traces that have a diagram. -/
def drawn (traces : Table String Trace) : Table String Trace :=
  traces.filter fun t => !t.2.steps.isEmpty

/-- The file for the diagram of an entry point. -/
def pathOf (directory entry : String) : Path :=
  (Path.ofText directory).child (fileName entry)

/-- The last trace with a diagram whose file has the name. -/
def lastNamed? (traces : Table String Trace) (name : String) : Option (String × Trace) :=
  (drawn traces).reverse.find? fun t => fileName t.1 = name

theorem drawn_cons_of_isEmpty {t : String × Trace} (ht : t.2.steps.isEmpty)
    (traces : Table String Trace) : drawn (t :: traces) = drawn traces := by
  simp [drawn, ht]

theorem drawn_cons {t : String × Trace} (ht : ¬ t.2.steps.isEmpty) (traces : Table String Trace) :
    drawn (t :: traces) = t :: drawn traces := by
  simp [drawn, ht]

theorem lastNamed?_cons {t : String × Trace} (ht : ¬ t.2.steps.isEmpty)
    (traces : Table String Trace) (name : String) :
    lastNamed? (t :: traces) name =
      (lastNamed? traces name).or (if fileName t.1 = name then some t else none) := by
  rw [lastNamed?, lastNamed?, drawn_cons ht, List.reverse_cons, List.find?_append]
  by_cases hname : fileName t.1 = name <;> simp [hname]

/-- A trace whose file name no other has is the last one of its name. -/
theorem lastNamed?_eq {traces : Table String Trace} {t : String × Trace} (ht : t ∈ drawn traces)
    (hone : ∀ u ∈ drawn traces, fileName u.1 = fileName t.1 → u = t) :
    lastNamed? traces (fileName t.1) = some t := by
  rw [lastNamed?]
  cases hfound : (drawn traces).reverse.find? fun u => fileName u.1 = fileName t.1 with
  | none => simpa using List.find?_eq_none.mp hfound t (List.mem_reverse.mpr ht)
  | some u =>
    have hname := List.find?_some hfound
    rw [hone u (List.mem_reverse.mp (List.mem_of_find?_eq_some hfound)) (of_decide_eq_true hname)]

theorem nodup_map_pathOf_iff {directory : String} {traces : Table String Trace} :
    (traces.map fun t => pathOf directory t.1).Nodup ↔
      (traces.map fun t => fileName t.1).Nodup := by
  have hpaths : (traces.map fun t => pathOf directory t.1) =
      (traces.map fun t => fileName t.1).map (Path.ofText directory).child := by
    rw [List.map_map]
    rfl
  have hinjective : Function.Injective (Path.ofText directory).child := by
    intro name other h
    simpa [Path.child] using h
  rw [hpaths, List.nodup_map_iff hinjective]

/-- What a file of the directory holds after the traces were written. -/
def contentOf (disk : Disk) (directory : String) (traces : Table String Trace) (name : String) :
    Except FileCause (List UInt8) :=
  match lastNamed? traces name with
  | some t => .ok (Text.encode (source t.2 t.1))
  | none => disk.read ((Path.ofText directory).child name).text

section Write

variable {s : Session} {directory : String} {traces : Table String Trace}

/-- The diagram of a trace is written to its file. -/
theorem run_writeTrace {t : String × Trace} (ht : ¬ t.2.steps.isEmpty) {next : Disk}
    (hwrite : s.disk.write (pathOf directory t.1).text (Text.encode (source t.2 t.1)) = .ok next) :
    (writeTrace (Path.ofText directory) t.1 t.2 : Session.Run _).run s =
      .ok (some (t.1, pathOf directory t.1)) { s with disk := next } := by
  rw [pathOf] at hwrite
  rw [writeTrace, if_neg ht, EStateM.run_bind, Session.run_write hwrite]
  rfl

/-- A trace without steps is told of. -/
theorem exists_writeTrace (s : Session) (directory : Path) {t : String × Trace}
    (ht : t.2.steps.isEmpty) :
    ∃ s', (writeTrace directory t.1 t.2 : Session.Run _).run s = .ok none s' ∧ s.Quiet s' := by
  obtain ⟨s', hrun, hquiet⟩ := s.quiet_tell .info
    "No call flow provided for sequence diagram generation."
  refine ⟨s', ?_, hquiet⟩
  rw [writeTrace, if_pos ht, EStateM.run_bind, hrun]
  rfl

/-- Writing some traces, one after the other. -/
theorem exists_mapM_writeTrace
    (hwritable : ∀ t ∈ drawn traces, s.disk.Writable (pathOf directory t.1).text) :
    ∃ written s', (traces.mapM fun t => writeTrace (Path.ofText directory) t.1 t.2 :
          Session.Run (List (Option (String × Path)))).run s = .ok written s' ∧
      written.filterMap id = (drawn traces).map (fun t => (t.1, pathOf directory t.1)) ∧
      ∀ name, Disk.IsName name → s'.disk.read ((Path.ofText directory).child name).text =
        contentOf s.disk directory traces name := by
  induction traces generalizing s with
  | nil => exact ⟨[], s, rfl, rfl, fun _ _ => rfl⟩
  | cons t traces ih =>
    rw [List.mapM_cons, EStateM.run_bind]
    by_cases ht : t.2.steps.isEmpty
    · rw [drawn_cons_of_isEmpty ht] at hwritable ⊢
      obtain ⟨s₁, hrun, hquiet⟩ := exists_writeTrace s (Path.ofText directory) ht
      obtain ⟨written, s', hrest, hwritten, hread⟩ := ih (s := s₁) (by rwa [hquiet.disk])
      refine ⟨none :: written, s', ?_, hwritten, fun name hname => ?_⟩
      · rw [hrun]
        simp only [EStateM.run_bind, hrest]
        rfl
      · rw [hread name hname, contentOf, contentOf, hquiet.disk, lastNamed?, lastNamed?,
          drawn_cons_of_isEmpty ht]
    · rw [drawn_cons ht] at hwritable ⊢
      obtain ⟨hfirst, hothers⟩ := List.forall_mem_cons.mp hwritable
      obtain ⟨next, hwrite⟩ := hfirst.exists_write (isName_fileName t.1) _
      obtain ⟨written, s', hrest, hwritten, hread⟩ := ih (s := { s with disk := next })
        fun u hu => (hothers u hu).write (isName_fileName t.1) (isName_fileName u.1) hwrite
      refine ⟨some (t.1, pathOf directory t.1) :: written, s', ?_, ?_, fun name hname => ?_⟩
      · rw [run_writeTrace ht hwrite]
        simp only [EStateM.run_bind, hrest]
        rfl
      · rw [List.filterMap_cons, hwritten]
        rfl
      · rw [hread name hname, contentOf, contentOf, lastNamed?_cons ht]
        cases lastNamed? traces name with
        | some u => rfl
        | none =>
          by_cases hsame : fileName t.1 = name
          · subst hsame
            rw [if_pos rfl]
            exact Disk.read_write hname hwrite
          · rw [if_neg hsame]
            exact Disk.read_write_of_ne (isName_fileName t.1) hname hsame hwrite

/-- Diagrams are written for the traces with steps, in order, if the directory can be made and each
file could be written by itself. No path is listed twice if no two of the file names are the same.
Each file of the directory then holds the diagram of the last trace of its name, and what it held
before if there is none; so the diagram of a trace whose file name no other has is not lost. -/
theorem exists_writeAll {s₁ : Session}
    (hmade : (Host.makeDirectories (Path.ofText directory) : Session.Run Unit).run s = .ok () s₁)
    (hwritable : ∀ t ∈ drawn traces, s₁.disk.Writable (pathOf directory t.1).text) :
    ∃ s₂, (writeAll traces directory : Session.Run (List (String × Path))).run s =
        .ok ((drawn traces).map fun t => (t.1, pathOf directory t.1)) s₂ ∧
      (((drawn traces).map fun t => pathOf directory t.1).Nodup ↔
        ((drawn traces).map fun t => fileName t.1).Nodup) ∧
      (∀ name, Disk.IsName name → s₂.disk.read ((Path.ofText directory).child name).text =
        contentOf s₁.disk directory traces name) ∧
      ∀ t ∈ drawn traces, (∀ u ∈ drawn traces, fileName u.1 = fileName t.1 → u = t) →
        s₂.disk.read (pathOf directory t.1).text = .ok (Text.encode (source t.2 t.1)) := by
  obtain ⟨written, s', hrun, hwritten, hread⟩ := exists_mapM_writeTrace hwritable
  obtain ⟨s₂, htell, hquiet⟩ := s'.quiet_tell .info
    s!"Wrote {(written.filterMap id).length} sequence diagrams to {(Path.ofText directory).text}"
  rw [hwritten] at htell
  have hcontent : ∀ name, Disk.IsName name →
      s₂.disk.read ((Path.ofText directory).child name).text =
        contentOf s₁.disk directory traces name := by
    rw [hquiet.disk]
    exact hread
  refine ⟨s₂, ?_, nodup_map_pathOf_iff, hcontent, fun t ht hone => ?_⟩
  · rw [writeAll, EStateM.run_bind, hmade]
    simp only [EStateM.run_bind, hrun, hwritten, htell]
    rfl
  · rw [pathOf, hcontent _ (isName_fileName t.1), contentOf, lastNamed?_eq ht hone]

end Write

/-- A flow that lists its entry point alone. -/
def shortTrace (entry : String) : String × Trace :=
  (entry, ⟨entry, [⟨entry, none, false⟩], []⟩)

/-- Flows of two methods of different names. -/
def twoMethods : Table String Trace :=
  [shortTrace "app.A.get(Long)", shortTrace "app.A.put(Long)"]

/-- Both diagrams are there when they have files of their own. -/
theorem exists_writeAll_twoMethods :
    ∃ s, (writeAll twoMethods "out" : Session.Run (List (String × Path))).run (.start .empty) =
        .ok [("app.A.get(Long)", ⟨"", ["out", "app.A.get_Long.puml"]⟩),
          ("app.A.put(Long)", ⟨"", ["out", "app.A.put_Long.puml"]⟩)] s ∧
      ∀ t ∈ twoMethods,
        s.disk.read (pathOf "out" t.1).text = .ok (Text.encode (source t.2 t.1)) := by
  have hmade : (Host.makeDirectories (Path.ofText "out") : Session.Run Unit).run (.start .empty) =
      .ok () (.start (.directory [("out", .directory [])])) := rfl
  have hget : Disk.Writable (.directory [("out", .directory [])])
      (pathOf "out" "app.A.get(Long)").text := ⟨_, rfl⟩
  have hput : Disk.Writable (.directory [("out", .directory [])])
      (pathOf "out" "app.A.put(Long)").text := ⟨_, rfl⟩
  have hpaths : ((drawn twoMethods).map fun t => (t.1, pathOf "out" t.1)) =
      [("app.A.get(Long)", ⟨"", ["out", "app.A.get_Long.puml"]⟩),
        ("app.A.put(Long)", ⟨"", ["out", "app.A.put_Long.puml"]⟩)] := by decide +kernel
  have hapart : ∀ t ∈ twoMethods, ∀ u ∈ twoMethods, fileName u.1 = fileName t.1 → u = t := by
    decide +kernel
  have hwritable : ∀ t ∈ drawn twoMethods, Disk.Writable (.directory [("out", .directory [])])
      (pathOf "out" t.1).text :=
    List.forall_mem_cons.mpr ⟨hget, List.forall_mem_cons.mpr ⟨hput, nofun⟩⟩
  obtain ⟨s, hrun, -, -, hown⟩ := exists_writeAll hmade hwritable
  exact ⟨s, hrun.trans (by rw [hpaths]), fun t ht => hown t ht (hapart t ht)⟩

/-- Flows of two overloads. -/
def overloads : Table String Trace :=
  [shortTrace "app.A.get(Long)", shortTrace "app.A.get(Long[])"]

/-- Two overloads are written to one file, and the diagram of the first is lost. -/
theorem overloads_share :
    EStateM.run' (do
        let written ← writeAll overloads "out"
        let bytes ← Host.read "out/app.A.get_Long.puml"
        return (written, bytes) : Session.Run (List (String × Path) × List UInt8)) (.start .empty) =
      some ([("app.A.get(Long)", ⟨"", ["out", "app.A.get_Long.puml"]⟩),
          ("app.A.get(Long[])", ⟨"", ["out", "app.A.get_Long.puml"]⟩)],
        Text.encode (source (shortTrace "app.A.get(Long[])").2 "app.A.get(Long[])")) ∧
    Text.encode (source (shortTrace "app.A.get(Long[])").2 "app.A.get(Long[])") ≠
      Text.encode (source (shortTrace "app.A.get(Long)").2 "app.A.get(Long)") := by
  decide +kernel

end EntryFlow.Diagram
