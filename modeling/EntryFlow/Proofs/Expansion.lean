import EntryFlow.Proofs.Coverage
import EntryFlow.Workers

/-!
# Methods that walks expand

Several walks can go on from each other, each from its own key. A method is expanded when the
machine puts its frame on the stack, and that marks it as visited. Below the root of a walk a
visited method is never entered, so over all walks a method is expanded once. The root itself is
looked up by its key, and only the key is compared with what was visited: a key that leads to a
visited method under another name expands that method again.

## Main definitions

* `Walk.expands`, `Walk.expandsAll`: the methods that a walk, or several walks, expand.
* `Walk.reenters`, `Walk.reentersAll`: the roots that were visited before.
* `Walk.Settled`: states in which no call leads out of the visited methods.

## Main statements

* `Walk.Follows.enter_cases`: how a walk begins.
* `Walk.enters_run`: the machine enters new methods only, each once.
* `Walk.count_expands`: how often one walk expands a method.
* `Walk.expands_once`: how often all walks together expand a method.
* `Walk.expands_twice`: a method that two walks expand.
-/

namespace EntryFlow.Walk

section Definitions

variable (conventions : Conventions) (index : Index)

/-- The method that a step of the machine enters. The step puts the frame of that method on the
stack. -/
def enteredBy (stack frames : List Frame) : Option Method :=
  if stack.length < frames.length then frames.head?.map (·.method) else none

/-- The methods that the machine enters while it empties a stack, in order. -/
def entered (w : Walk) : List Frame → List Method
  | [] => []
  | top :: rest =>
    match h : w.advance conventions index top rest with
    | (_, .error _) => []
    | (w', .ok frames) =>
      have := measure_advance_lt h
      (enteredBy (top :: rest) frames).toList ++ entered w' frames
termination_by frames => (w.unvisited index, pending frames)
decreasing_by assumption

/-- The methods that the walk from a key expands, its root first. -/
def expands (w : Walk) (key : Datum) : List Method :=
  match w.enter index key with
  | (v, .ok stack) => stack.map (·.method) ++ v.entered conventions index stack
  | (_, .error _) => []

/-- The root of the walk from a key, if the walk expands it although it was visited before. -/
def reenters (w : Walk) (key : Datum) : Option Method :=
  match w.enter index key with
  | (_, .ok (frame :: _)) => if frame.method.baseFqn ∈ w.visited then some frame.method else none
  | _ => none

/-- The walks from some keys one after the other. -/
def extendAll (w : Walk) (keys : List Datum) : Walk :=
  keys.foldl (fun w key => (w.extend conventions index key).1) w

/-- The methods that the walks from some keys expand. -/
def expandsAll (w : Walk) : List Datum → List Method
  | [] => []
  | key :: keys =>
    w.expands conventions index key ++ expandsAll (w.extend conventions index key).1 keys

/-- The roots that the walks from some keys expand although they were visited before. -/
def reentersAll (w : Walk) : List Datum → List Method
  | [] => []
  | key :: keys =>
    (w.reenters index key).toList ++ reentersAll (w.extend conventions index key).1 keys

/-- No call leads from a visited method to one that is not visited. -/
def Settled (w : Walk) : Prop :=
  ∀ m ∈ index.methodList, m.baseFqn ∈ w.visited → ∀ n, m.Calls conventions index n →
    n.baseFqn ∈ w.visited

/-- From `w` to `w'` the methods `ms` are visited, all of them new. -/
structure Enters (w : Walk) (ms : List Method) (w' : Walk) : Prop where
  visited : ∀ base, base ∈ w'.visited ↔ base ∈ w.visited ∨ base ∈ ms.map Method.baseFqn
  members : ∀ m ∈ ms, m ∈ index.methodList
  fresh : ∀ m ∈ ms, m.baseFqn ∉ w.visited
  nodup : ms.Nodup

end Definitions

variable {conventions : Conventions} {index : Index}

/-! ## What the machine enters -/

namespace Enters

theorem of_visited_eq {w w' : Walk} (h : w'.visited = w.visited) : Enters index w [] w' := by
  constructor <;> simp [h]

theorem trans {w v w' : Walk} {ms ns : List Method} (h : Enters index w ms v)
    (h' : Enters index v ns w') : Enters index w (ms ++ ns) w' := by
  constructor
  case visited =>
    intro base
    rw [h'.visited, h.visited, List.map_append, List.mem_append, or_assoc]
  case members =>
    intro m hm
    exact (List.mem_append.mp hm).elim (h.members m) (h'.members m)
  case fresh =>
    intro m hm hold
    rcases List.mem_append.mp hm with hm | hm
    · exact h.fresh m hm hold
    · exact h'.fresh m hm ((h.visited _).mpr (.inl hold))
  case nodup =>
    refine List.nodup_append.mpr ⟨h.nodup, h'.nodup, ?_⟩
    rintro m hm n hn rfl
    exact h'.fresh m hn ((h.visited _).mpr (.inr (List.mem_map_of_mem hm)))

end Enters

theorem enters_of_length_le {w v : Walk} {stack frames : List Frame}
    (hlength : frames.length ≤ stack.length) (hvisited : v.visited = w.visited) :
    Enters index w (enteredBy stack frames).toList v := by
  have hnone : enteredBy stack frames = none := if_neg (by omega)
  rw [hnone]
  exact .of_visited_eq hvisited

/-- A step enters no method that was visited. -/
theorem Advances.enters {w v : Walk} {stack frames : List Frame}
    (h : Advances conventions index w stack v frames) :
    Enters index w (enteredBy stack frames).toList v := by
  cases h with
  | ended | ignored | unresolved | framework | suppressed =>
    exact enters_of_length_le (by simp) rfl
  | @entered _ _ _ _ _ _ _ target _ inner hres _ hnew hinner =>
    have hmethod := Frame.method_eq hinner
    have hentered : ∀ frame rest frame',
        enteredBy (frame :: rest) (inner :: frame' :: rest) = some target := by
      intro frame rest frame'
      simp [enteredBy, hmethod]
    rw [hentered]
    constructor
    case visited =>
      intro base
      rw [visited_push, mem_visited_visit]
      simp [or_comm]
    case members => simpa using Conventions.mem_methodList_of_resolve hres
    case fresh => simpa using hnew
    case nodup => simp

@[simp] theorem entered_nil (w : Walk) : w.entered conventions index [] = [] := by
  rw [entered]

theorem entered_cons_of_ok {w v : Walk} {top : Frame} {rest frames : List Frame}
    (h : w.advance conventions index top rest = (v, .ok frames)) :
    w.entered conventions index (top :: rest) =
      (enteredBy (top :: rest) frames).toList ++ v.entered conventions index frames := by
  rw [entered]
  split <;> simp_all

/-- While the machine empties a stack, it enters new methods only, each once, and visits no
others. -/
theorem enters_run {w w' : Walk} {stack : List Frame}
    (h : w.run conventions index stack = (w', none)) :
    Enters index w (w.entered conventions index stack) w' := by
  induction w, stack using run.induct conventions index with
  | case1 w =>
    rw [run_nil] at h
    cases h
    rw [entered_nil]
    exact .of_visited_eq rfl
  | case2 w top rest v fault hadvance =>
    rw [run_cons_of_error hadvance] at h
    cases h
  | case3 w top rest v frames hadvance hlt ih =>
    rw [run_cons_of_ok hadvance] at h
    rw [entered_cons_of_ok hadvance]
    exact (advances_iff.mpr hadvance).enters.trans (ih h)

/-! ## How a walk begins -/

/-- Of the methods of the index, a walk visits the one that its key leads to before its first call.
The key itself is no name of another method. -/
theorem mem_visited_visit_root (h : index.WellFormed) {w : Walk} {base : String} {root m : Method}
    (hroot : index.locate? base = some root) (hm : m ∈ index.methodList) :
    m.baseFqn ∈ ((w.visit base).visit root.baseFqn).visited ↔ m.baseFqn ∈ w.visited ∨ m = root := by
  rw [mem_visited_visit, mem_visited_visit]
  constructor
  · rintro (heq | heq | hold)
    · exact .inr (h.eq_of_baseFqn_eq hm (Index.mem_methodList_of_locate? hroot) heq)
    · rw [← heq, h.locate?_baseFqn hm] at hroot
      exact .inr (Option.some.inj hroot)
    · exact .inl hold
  · rintro (hold | rfl)
    · exact .inr (.inr hold)
    · exact .inl rfl

/-- A walk begins with the frame of the method that its key leads to and marks that method. A walk
that begins without a frame is over, and visits no method of the index. -/
theorem Follows.enter_cases (h : index.WellFormed) {w w' : Walk} {key : Datum}
    (hfollows : Follows conventions index w key w') :
    (∃ v, w.enter index key = (v, .ok []) ∧
        ∀ m ∈ index.methodList, m.baseFqn ∈ w'.visited ↔ m.baseFqn ∈ w.visited) ∨
      ∃ root v frame, root ∈ index.methodList ∧ w.enter index key = (v, .ok [frame]) ∧
        Frame.ofMethod index root = .ok frame ∧
        (∀ m ∈ index.methodList, m.baseFqn ∈ v.visited ↔ m.baseFqn ∈ w.visited ∨ m = root) ∧
        Explores conventions index v frame w' := by
  cases hfollows with
  | blank hkey =>
    left
    exact ⟨_, by rw [enter, hkey], fun m _ => Iff.rfl⟩
  | known hkey hold =>
    left
    exact ⟨w, by simp [enter, hkey, hold], fun m _ => Iff.rfl⟩
  | @missing base hkey hnew hnone =>
    left
    refine ⟨(w.visit base).push ⟨(w.visit base).missingMarker key, none, true⟩,
      by simp [enter, hkey, hnew, hnone], fun m hm => ?_⟩
    rw [visited_push, mem_visited_visit]
    refine or_iff_right fun heq => ?_
    rw [← heq, h.locate?_baseFqn hm] at hnone
    cases hnone
  | @first base signature root frame _ hkey hnew hroot hsteps hsignature hframe hexplores =>
    right
    refine ⟨root, _, frame, Index.mem_methodList_of_locate? hroot, ?_, hframe, ?_, hexplores⟩
    · simp [enter, hkey, hnew, hroot, hsteps, hsignature, hframe, Except.map]
    · intro m hm
      rw [visited_push]
      exact mem_visited_visit_root h hroot hm
  | @further base root frame _ hkey hnew hroot hsteps hframe hexplores =>
    right
    refine ⟨root, _, frame, Index.mem_methodList_of_locate? hroot, ?_, hframe,
      fun m hm => mem_visited_visit_root h hroot hm, hexplores⟩
    simp [enter, hkey, hnew, hroot, hsteps, hframe, Except.map]

section Beginning

variable {w v : Walk} {key : Datum}

theorem expands_of_nil (h : w.enter index key = (v, .ok [])) :
    w.expands conventions index key = [] := by
  simp [expands, h]

theorem reenters_of_nil (h : w.enter index key = (v, .ok [])) : w.reenters index key = none := by
  simp [reenters, h]

theorem expands_of_frame {root : Method} {frame : Frame}
    (h : w.enter index key = (v, .ok [frame])) (hframe : Frame.ofMethod index root = .ok frame) :
    w.expands conventions index key = root :: v.entered conventions index [frame] := by
  simp [expands, h, Frame.method_eq hframe]

theorem reenters_of_frame {root : Method} {frame : Frame}
    (h : w.enter index key = (v, .ok [frame])) (hframe : Frame.ofMethod index root = .ok frame) :
    w.reenters index key = if root.baseFqn ∈ w.visited then some root else none := by
  simp [reenters, h, Frame.method_eq hframe]

end Beginning

/-! ## One walk -/

/-- How often one walk expands a method. A method that was not visited it expands when it visits it;
one that was, only as its root. -/
theorem count_expands (h : index.WellFormed) {w w' : Walk} {key : Datum}
    (hfollows : Follows conventions index w key w') {m : Method} (hm : m ∈ index.methodList) :
    (w.expands conventions index key).count m + (if m.baseFqn ∈ w.visited then 1 else 0) =
      (if m.baseFqn ∈ w'.visited then 1 else 0) + (w.reenters index key).toList.count m := by
  rcases hfollows.enter_cases h with
    ⟨_, henter, hsame⟩ | ⟨root, v, frame, hroot, henter, hframe, hopened, hexplores⟩
  · simp [expands_of_nil henter, reenters_of_nil henter, hsame m hm]
  · have henters := enters_run (explores_iff_run.mp hexplores)
    have hentered : m ∈ v.entered conventions index [frame] ↔
        m.baseFqn ∈ w'.visited ∧ m.baseFqn ∉ v.visited := by
      constructor
      · intro hmem
        exact ⟨(henters.visited _).mpr (.inr (List.mem_map_of_mem hmem)), henters.fresh m hmem⟩
      · rintro ⟨hlater, hfirst⟩
        obtain ⟨n, hn, heq⟩ := List.mem_map.mp (((henters.visited _).mp hlater).resolve_left hfirst)
        rwa [h.eq_of_baseFqn_eq (henters.members n hn) hm heq] at hn
    have hmono : m.baseFqn ∈ v.visited → m.baseFqn ∈ w'.visited := fun hv =>
      (henters.visited _).mpr (.inl hv)
    have hcount : (v.entered conventions index [frame]).count m =
        if m.baseFqn ∈ w'.visited ∧ m.baseFqn ∉ v.visited then 1 else 0 := by
      rw [henters.nodup.count]
      simp only [hentered]
    rw [expands_of_frame henter hframe, reenters_of_frame henter hframe, List.count_cons, hcount]
    simp only [hopened m hm]
    rw [hopened m hm] at hmono
    by_cases heq : m = root
    · subst heq
      by_cases hold : m.baseFqn ∈ w.visited <;> simp_all
    · have hne : ¬ root = m := Ne.symm heq
      by_cases hold : m.baseFqn ∈ w.visited <;> by_cases hr : root.baseFqn ∈ w.visited <;> simp_all

/-! ## What is called by visited methods -/

theorem settled_start (entry : String) : Settled conventions index (start entry) := by
  intro m _ hm
  cases hm

/-- A walk from any key looks at all calls of the methods that it visits. -/
theorem Settled.follows (h : index.WellFormed) {w w' : Walk} {key : Datum}
    (hs : Settled conventions index w) (hfollows : Follows conventions index w key w') :
    Settled conventions index w' := by
  intro m hm hvisited n hcalls
  have hcalled := hcalls.mem_methodList
  rcases hfollows.enter_cases h with
    ⟨_, -, hsame⟩ | ⟨root, v, frame, hroot, -, hframe, hopened, hexplores⟩
  · rw [hsame m hm] at hvisited
    exact (hsame n hcalled).mpr (hs m hm hvisited n hcalls)
  · obtain ⟨ms, hd⟩ := hexplores.discovers_sites h hroot hframe
    have hvisited : m.baseFqn ∈ w.visited ∨ m ∈ root :: ms := by
      rw [hd.visited, hopened m hm] at hvisited
      rcases hvisited with (hold | rfl) | hentered
      · exact .inl hold
      · exact .inr List.mem_cons_self
      · obtain ⟨n, hn, heq⟩ := List.mem_map.mp hentered
        exact .inr (List.mem_cons_of_mem _ (h.eq_of_baseFqn_eq (hd.members n hn) hm heq ▸ hn))
    rcases hvisited with hold | hnew
    · have hcalled := (hopened n hcalled).mpr (.inl (hs m hm hold n hcalls))
      exact (hd.visited _).mpr (.inl hcalled)
    · exact hd.mem_visited_of_calls hnew hcalls

theorem Settled.mem_visited_of_reaches {w : Walk} (hs : Settled conventions index w) {m n : Method}
    (hm : m ∈ index.methodList) (hvisited : m.baseFqn ∈ w.visited)
    (hreached : m.Reaches conventions index n) : n.baseFqn ∈ w.visited := by
  induction hreached with
  | refl => exact hvisited
  | tail hreached hcalls ih => exact hs _ (Method.Reaches.mem_methodList hreached hm) ih _ hcalls

/-- A walk whose root was visited before expands this one method and enters no other. -/
theorem expands_of_reenters (h : index.WellFormed) {w w' : Walk} {key : Datum}
    (hs : Settled conventions index w) (hfollows : Follows conventions index w key w') {m : Method}
    (hm : w.reenters index key = some m) : w.expands conventions index key = [m] := by
  rcases hfollows.enter_cases h with
    ⟨_, henter, -⟩ | ⟨root, v, frame, hroot, henter, hframe, hopened, hexplores⟩
  · rw [reenters_of_nil henter] at hm
    cases hm
  · rw [reenters_of_frame henter hframe, Option.ite_none_right_eq_some, Option.some.injEq] at hm
    obtain ⟨hvisited, rfl⟩ := hm
    obtain ⟨ms, hd⟩ := hexplores.discovers_sites h hroot hframe
    have hnone : v.entered conventions index [frame] = [] := by
      have henters := enters_run (explores_iff_run.mp hexplores)
      refine List.eq_nil_iff_forall_not_mem.mpr fun n hn => henters.fresh n hn ?_
      have hlater : n.baseFqn ∈ w'.visited :=
        (henters.visited _).mpr (.inr (List.mem_map_of_mem hn))
      rcases (hd.visited _).mp hlater with hfirst | hentered
      · exact hfirst
      · -- it was entered through a chain of calls, but that leads to visited methods only
        obtain ⟨n', hn', heq⟩ := List.mem_map.mp hentered
        obtain ⟨s, hsite, called, htarget, hreached⟩ := hd.reached n' hn'
        have hcalls : root.Calls conventions index called := ⟨s, hsite, htarget⟩
        have hcalled := hs root hroot hvisited called hcalls
        rw [← heq, hopened n' (hd.members n' hn')]
        exact .inl (hs.mem_visited_of_reaches hcalls.mem_methodList hcalled hreached)
    rw [expands_of_frame henter hframe, hnone]

theorem mem_methodList_of_mem_expands (h : index.WellFormed) {w w' : Walk} {key : Datum}
    (hfollows : Follows conventions index w key w') {m : Method}
    (hm : m ∈ w.expands conventions index key) : m ∈ index.methodList := by
  rcases hfollows.enter_cases h with
    ⟨_, henter, -⟩ | ⟨root, v, frame, hroot, henter, hframe, -, hexplores⟩
  · rw [expands_of_nil henter] at hm
    cases hm
  · rw [expands_of_frame henter hframe] at hm
    rcases List.mem_cons.mp hm with rfl | hm
    · exact hroot
    · exact (enters_run (explores_iff_run.mp hexplores)).members m hm

/-! ## Several walks -/

section WellFormed

variable (hw : conventions.WellTyped) (h : index.WellFormed)
include hw h

theorem exists_follows (w : Walk) {key : Datum} (hkey : key.isOptionalText) :
    ∃ w', w.extend conventions index key = (w', none) ∧ Follows conventions index w key w' := by
  obtain ⟨w', hextend⟩ := exists_extend hw h w hkey
  exact ⟨w', hextend, extend_eq_none_iff.mp hextend⟩

theorem settled_extendAll {w : Walk} (hs : Settled conventions index w) {keys : List Datum}
    (hkeys : ∀ key ∈ keys, key.isOptionalText) :
    Settled conventions index (w.extendAll conventions index keys) := by
  induction keys generalizing w with
  | nil => exact hs
  | cons key keys ih =>
    obtain ⟨hkey, hkeys⟩ := List.forall_mem_cons.mp hkeys
    obtain ⟨w', hextend, hfollows⟩ := exists_follows hw h w hkey
    have hrest := ih (hs.follows h hfollows) hkeys
    rw [extendAll, List.foldl_cons, hextend]
    exact hrest

theorem mem_methodList_of_mem_expandsAll (w : Walk) {keys : List Datum}
    (hkeys : ∀ key ∈ keys, key.isOptionalText) {m : Method}
    (hm : m ∈ w.expandsAll conventions index keys) : m ∈ index.methodList := by
  induction keys generalizing w with
  | nil => cases hm
  | cons key keys ih =>
    obtain ⟨hkey, hkeys⟩ := List.forall_mem_cons.mp hkeys
    obtain ⟨w', -, hfollows⟩ := exists_follows hw h w hkey
    rcases List.mem_append.mp hm with hm | hm
    · exact mem_methodList_of_mem_expands h hfollows hm
    · exact ih _ hkeys hm

/-- How often the walks from some keys expand a method. -/
theorem count_expandsAll (w : Walk) {keys : List Datum}
    (hkeys : ∀ key ∈ keys, key.isOptionalText) {m : Method} (hm : m ∈ index.methodList) :
    (w.expandsAll conventions index keys).count m + (if m.baseFqn ∈ w.visited then 1 else 0) =
      (if m.baseFqn ∈ (w.extendAll conventions index keys).visited then 1 else 0) +
        (w.reentersAll conventions index keys).count m := by
  induction keys generalizing w with
  | nil =>
    rw [expandsAll, reentersAll, List.count_nil, Nat.zero_add, Nat.add_zero]
    rfl
  | cons key keys ih =>
    obtain ⟨hkey, hkeys⟩ := List.forall_mem_cons.mp hkeys
    obtain ⟨w', hextend, hfollows⟩ := exists_follows hw h w hkey
    have hone := count_expands h hfollows hm
    have hrest := ih w' hkeys
    have hall : w.extendAll conventions index (key :: keys) =
        w'.extendAll conventions index keys := by
      rw [extendAll, List.foldl_cons, hextend, extendAll]
    rw [expandsAll, reentersAll, List.count_append, List.count_append, hall, hextend]
    dsimp only
    omega

end WellFormed

/-- Over all walks from some keys, a method that is visited in the end is expanded once, and once
more for each walk that has it as its root when it was visited before. No other method is expanded.
So where no walk leads back to a visited method, none is expanded twice. Every walk ends without a
fault, and one that leads back to a visited method expands that method and no other. -/
theorem expands_once {types : List TypeRecord} (htypes : Corpus.WellTyped types)
    (hindex : Index.build types = .ok index) (hconventions : conventions.WellTyped) (entry : String)
    {keys : List Datum} (hkeys : ∀ key ∈ keys, key.isOptionalText) :
    (∀ m ∈ (start entry).expandsAll conventions index keys, m ∈ index.methodList) ∧
      (∀ m ∈ index.methodList, ((start entry).expandsAll conventions index keys).count m =
        (if m.baseFqn ∈ ((start entry).extendAll conventions index keys).visited then 1 else 0) +
          ((start entry).reentersAll conventions index keys).count m) ∧
      ((start entry).reentersAll conventions index keys = [] →
        ((start entry).expandsAll conventions index keys).Nodup) ∧
      ∀ before key after, keys = before ++ key :: after →
        ∃ w', ((start entry).extendAll conventions index before).extend conventions index key =
            (w', none) ∧
          ∀ m, ((start entry).extendAll conventions index before).reenters index key = some m →
            ((start entry).extendAll conventions index before).expands conventions index key =
              [m] := by
  have h := Index.wellFormed_of_build htypes hindex
  have hmembers : ∀ m ∈ (start entry).expandsAll conventions index keys, m ∈ index.methodList :=
    fun m hm => mem_methodList_of_mem_expandsAll hconventions h (start entry) hkeys hm
  have hcount : ∀ m ∈ index.methodList, ((start entry).expandsAll conventions index keys).count m =
      (if m.baseFqn ∈ ((start entry).extendAll conventions index keys).visited then 1 else 0) +
        ((start entry).reentersAll conventions index keys).count m := by
    intro m hm
    have hall := count_expandsAll hconventions h (start entry) hkeys hm
    rwa [if_neg (show m.baseFqn ∉ (start entry).visited from List.not_mem_nil), Nat.add_zero]
      at hall
  refine ⟨hmembers, hcount, fun hnone => ?_, ?_⟩
  · refine List.nodup_iff_count_le_one.mpr fun m => ?_
    by_cases hm : m ∈ (start entry).expandsAll conventions index keys
    · have hone := hcount m (hmembers m hm)
      rw [hnone, List.count_nil] at hone
      split at hone <;> omega
    · rw [List.count_eq_zero_of_not_mem hm]
      exact Nat.zero_le 1
  · rintro before key after rfl
    have hbefore : ∀ key ∈ before, key.isOptionalText := fun key hkey =>
      hkeys key (List.mem_append_left _ hkey)
    have hs := settled_extendAll hconventions h (settled_start entry) hbefore
    obtain ⟨w', hextend, hfollows⟩ := exists_follows hconventions h
      ((start entry).extendAll conventions index before) (hkeys key (by simp))
    exact ⟨w', hextend, fun m hm => expands_of_reenters h hs hfollows hm⟩

/-- A method with and without its parameters, a method that it calls, and a missing key. -/
def sampleKeys : List Datum :=
  [.text "app.Shop.buy(Item)", .text "app.Shop.buy", .text "app.Stock.take", .null]

theorem expands_once_sample :
    (∀ m ∈ (start "entry").expandsAll .default (Index.ofTypes Corpus.sample) sampleKeys,
        m ∈ (Index.ofTypes Corpus.sample).methodList) ∧
      (∀ m ∈ (Index.ofTypes Corpus.sample).methodList,
        ((start "entry").expandsAll .default (Index.ofTypes Corpus.sample) sampleKeys).count m =
          (if m.baseFqn ∈ ((start "entry").extendAll .default (Index.ofTypes Corpus.sample)
            sampleKeys).visited then 1 else 0) +
            ((start "entry").reentersAll .default (Index.ofTypes Corpus.sample) sampleKeys).count
              m) ∧
      ((start "entry").reentersAll .default (Index.ofTypes Corpus.sample) sampleKeys = [] →
        ((start "entry").expandsAll .default (Index.ofTypes Corpus.sample) sampleKeys).Nodup) ∧
      ∀ before key after, sampleKeys = before ++ key :: after →
        ∃ w', ((start "entry").extendAll .default (Index.ofTypes Corpus.sample) before).extend
            .default (Index.ofTypes Corpus.sample) key = (w', none) ∧
          ∀ m, ((start "entry").extendAll .default (Index.ofTypes Corpus.sample) before).reenters
              (Index.ofTypes Corpus.sample) key = some m →
            ((start "entry").extendAll .default (Index.ofTypes Corpus.sample) before).expands
              .default (Index.ofTypes Corpus.sample) key = [m] :=
  expands_once (show Corpus.WellTyped Corpus.sample by decide)
    (Index.build_eq_ofTypes (by decide)) (by decide) "entry" (by decide)

/-- A type with a method that calls itself. -/
def looping : TypeRecord :=
  { Corpus.stock with
    name := .text "A"
    packageName := .null
    fields := none
    methods := some [.calling "x" ["x()"]] }

/-- The method of that type. -/
def loop : Method :=
  (Method.calling "x" ["x()"]).ownedBy looping

/-- The walk from the name of a method alone, after one from its full name, expands the method a
second time and suppresses its call a second time. -/
theorem expands_twice :
    Corpus.WellTyped [looping] ∧ ∃ index w w', Index.build [looping] = .ok index ∧
      (start "A.x").extend .default index (.text "A.x") = (w, none) ∧
      w.extend .default index (.text "x") = (w', none) ∧
      w.trace.suppressed = [("A.x()", "A.x()")] ∧
      w'.trace.suppressed = [("A.x()", "A.x()"), ("A.x()", "A.x()")] ∧
      (start "A.x").expandsAll .default index [.text "A.x", .text "x"] = [loop, loop] := by
  let index := Index.ofTypes [looping]
  let frame : Frame := ⟨loop, [.text "x()"], ⟨.text "A", [], [], []⟩⟩
  let opened := (((start "A.x").visit "A.x").visit "A.x").push ⟨"A.x()", none, false⟩
  have hres : Conventions.default.resolve index (.text "x()") frame.context =
      .ok (.method loop "A.x()" .bareName) := by decide +kernel
  have hstep : ∀ v : Walk, "A.x" ∈ v.visited → Advances .default index v [frame]
      (v.suppress "A.x()" "A.x()") [⟨loop, [], frame.context⟩] := by
    intro v hv
    exact .suppressed hres rfl hv
  have hexplores : ∀ v : Walk, "A.x" ∈ v.visited →
      Explores .default index v frame (v.suppress "A.x()" "A.x()") := by
    intro v hv
    exact .suppressed hres rfl hv .done
  have hentered : ∀ v : Walk, "A.x" ∈ v.visited → v.entered .default index [frame] = [] := by
    intro v hv
    rw [entered_cons_of_ok (hstep v hv).advance_eq, entered_cons_of_ok Advances.ended.advance_eq,
      entered]
    rfl
  have henter : (start "A.x").enter index (.text "A.x") = (opened, .ok [frame]) := rfl
  have hfirst : (start "A.x").extend .default index (.text "A.x") =
      (opened.suppress "A.x()" "A.x()", none) := by
    rw [extend_eq_enter, henter]
    exact explores_iff_run.mp (hexplores opened (by decide))
  let reopened := ((opened.suppress "A.x()" "A.x()").visit "x").visit "A.x"
  have hreenter : (opened.suppress "A.x()" "A.x()").enter index (.text "x") =
      (reopened, .ok [frame]) := rfl
  have hsecond : (opened.suppress "A.x()" "A.x()").extend .default index (.text "x") =
      (reopened.suppress "A.x()" "A.x()", none) := by
    rw [extend_eq_enter, hreenter]
    exact explores_iff_run.mp (hexplores reopened (by decide))
  refine ⟨by decide, index, _, _, rfl, hfirst, hsecond, rfl, rfl, ?_⟩
  have hframe : Frame.ofMethod index loop = .ok frame := rfl
  rw [expandsAll, expandsAll, expandsAll, hfirst, expands_of_frame henter hframe,
    expands_of_frame hreenter hframe, hentered opened (by decide), hentered reopened (by decide)]
  rfl

end EntryFlow.Walk
