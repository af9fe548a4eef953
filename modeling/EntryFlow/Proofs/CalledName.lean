import EntryFlow.Proofs.Brackets
import EntryFlow.Proofs.WellTyped

/-!
# The name of the method that a call is resolved to

A call names a method by the last of its segments. Where methods have names without dots, brackets
and blanks, the method that a call is resolved to has that very name. Four of the five tiers look a
method up by the last segment. The direct tier looks it up by the text before the first parenthesis,
which ends in the name of another method when the call goes on behind its first argument list.

## Main definitions

* `Index.SimpleNames`: indexes in which the name of every method is one word.
* `Call.IsSignature`: calls with no name behind the first argument list.

## Main statements

* `Index.name_of_findIn_direct`, `Index.name_of_findIn`: the name of what a tier finds.
* `Conventions.name_of_resolve`: the name of the method that a call is resolved to.
* `Conventions.exists_other_name`: a call that the direct tier gives to another method.
-/

namespace EntryFlow

/-- The name of the method is a text and one word. -/
def Method.HasSimpleName (m : Method) : Prop :=
  match m.name with
  | .text s => Name.Simple s
  | _ => False

instance (m : Method) : Decidable m.HasSimpleName := by
  unfold Method.HasSimpleName
  split <;> infer_instance

/-- Every method of the index has a simple name. -/
def Index.SimpleNames (index : Index) : Prop :=
  ∀ m ∈ index.methodList, m.HasSimpleName

instance (index : Index) : Decidable index.SimpleNames :=
  inferInstanceAs (Decidable (∀ m ∈ index.methodList, m.HasSimpleName))

/-- No bracket is left open before the first parenthesis of the call, and no name follows behind the
argument list there. -/
def Call.IsSignature (call : String) : Prop :=
  Closed (call.toList.takeWhile (· ≠ '(')) ∧ names (bare (call.toList.dropWhile (· ≠ '('))) = []

instance (call : String) : Decidable (Call.IsSignature call) :=
  inferInstanceAs (Decidable (_ ∧ _))

theorem Method.HasSimpleName.exists_eq {m : Method} (h : m.HasSimpleName) :
    ∃ name, m.name = .text name ∧ Name.Simple name := by
  unfold HasSimpleName at h
  split at h
  · rename_i name hname
    exact ⟨name, hname, h⟩
  · exact h.elim

/-! ## Keys of an index -/

/-- What stands behind the last dot of a text is determined by the text. -/
theorem Call.eq_of_append_dot_eq {xs ys m n : List Char} (hm : '.' ∉ m) (hn : '.' ∉ n)
    (h : xs ++ '.' :: m = ys ++ '.' :: n) : m = n := by
  rcases List.append_eq_append_iff.mp h with ⟨zs, -, hzs⟩ | ⟨zs, -, hzs⟩
  · cases zs with
    | nil => exact (List.cons.inj hzs).2
    | cons z zs =>
      have hdot : '.' ∈ m := by simp [(List.cons.inj hzs).2]
      exact absurd hdot hm
  · cases zs with
    | nil => exact (List.cons.inj hzs).2.symm
    | cons z zs =>
      have hdot : '.' ∈ n := by simp [(List.cons.inj hzs).2]
      exact absurd hdot hn

namespace Index

variable {types : List TypeRecord} {index : Index}

/-- The key of a method ends in its name. -/
theorem exists_owner_of_mem (hindex : build types = .ok index) {e : String × Method}
    (he : e ∈ index.methods) : ∃ owner, e.1 = owner ++ "." ++ e.2.name.display := by
  unfold build at hindex
  split at hindex
  · cases hindex
    obtain ⟨t, -, m, -, rfl⟩ := exists_of_mem_methods he
    exact ⟨t.fqn.display, rfl⟩
  · cases hindex

section Names

variable (hindex : build types = .ok index) (hnames : index.SimpleNames)
include hindex hnames

/-- What is found under a key has the name in which the key ends. -/
theorem exists_of_method? {key : String} {m : Method} (h : index.method? key = some m) :
    ∃ owner name, key = owner ++ "." ++ name ∧ m.name = .text name ∧ Name.Simple name := by
  obtain ⟨name, hname, hsimple⟩ := (hnames m (mem_methodList_of_method? h)).exists_eq
  obtain ⟨owner, hkey⟩ := exists_owner_of_mem hindex (Table.mem_of_find? h)
  rw [hname, Datum.display_text] at hkey
  exact ⟨owner, name, hkey, hname, hsimple⟩

theorem name_of_method? {owner name : String} (hdot : '.' ∉ name.toList) {m : Method}
    (h : index.method? (owner ++ "." ++ name) = some m) : m.name = .text name := by
  obtain ⟨owner', name', hkey, hname, hsimple⟩ := exists_of_method? hindex hnames h
  have htexts := congrArg String.toList hkey
  simp only [String.toList_append, List.append_assoc] at htexts
  have heq := Call.eq_of_append_dot_eq hdot hsimple.not_mem_dot htexts
  rw [hname, String.toList_inj.mp heq]

theorem name_of_lookupMember {t : Datum} {name : String} (hdot : '.' ∉ name.toList) {m : Method}
    (h : index.lookupMember t name = .ok (some m)) : m.name = .text name := by
  simp only [lookupMember] at h
  split at h
  · rename_i found hfound
    obtain ⟨owner, -, hm⟩ := List.exists_of_findSome?_eq_some hfound
    cases h
    exact name_of_method? hindex hnames hdot hm
  · split at h <;> cases h

/-- A chain of calls leads to a method with the name of the last one. -/
theorem name_of_followFrom {names : List String} (hdots : ∀ name ∈ names, '.' ∉ name.toList)
    {current : String} {m : Method} (h : index.followFrom current names = .ok (some m)) :
    ∃ name, names.getLast? = some name ∧ m.name = .text name := by
  induction names generalizing current with
  | nil => cases h
  | cons name names ih =>
    obtain ⟨hdot, hdots⟩ := List.forall_mem_cons.mp hdots
    simp only [followFrom, bind, Except.bind, pure, Except.pure] at h
    split at h
    · cases h
    · rename_i found hmember
      split at h
      · cases h
      · rename_i step
        split at h
        · rename_i hlast
          cases h
          rw [List.isEmpty_iff.mp hlast]
          exact ⟨name, rfl, name_of_lookupMember hindex hnames hdot hmember⟩
        · rename_i hmore
          split at h
          · cases h
          · split at h
            · cases h
            · obtain ⟨last, hlast, hname⟩ := ih hdots h
              refine ⟨last, ?_, hname⟩
              rw [List.getLast?_cons, hlast]
              rfl

theorem name_of_follow {segments : List String} (hdots : ∀ s ∈ segments, '.' ∉ s.toList)
    {context : Context} {m : Method} (h : index.follow segments context = .ok (some m)) :
    ∃ name, segments.getLast? = some name ∧ m.name = .text name := by
  simp only [follow, bind, Except.bind, pure, Except.pure] at h
  split at h
  · rename_i receiver first rest
    split at h
    · cases h
    · split at h
      · cases h
      · obtain ⟨-, hdots⟩ := List.forall_mem_cons.mp hdots
        exact name_of_followFrom hindex hnames hdots h
  · cases h

end Names

end Index

/-! ## The text before the first parenthesis -/

namespace Call

open Text

theorem trimmed_unqualified (raw : String) : Trimmed (unqualified raw).toList := by
  rw [unqualified, String.toList_ofList]
  exact trimmed_dropQualifiers (trimmed_trim _)

/-- What stands before the first parenthesis of a trimmed call is its callee, with blanks behind. -/
theorem exists_of_callee? {call key : String} (hcall : Trimmed call.toList)
    (h : callee? call = some key) :
    ∃ bs, (∀ c ∈ bs, isBlank c = true) ∧ call.toList.takeWhile (· ≠ '(') = key.toList ++ bs := by
  simp only [callee?, trim_eq_self hcall] at h
  split at h
  · cases h
  · cases h
    set head := call.toList.takeWhile (· ≠ '(') with hhead
    have hstart : trimStart head = head := by
      refine trimStart_eq_self fun c hc => hcall.head c ?_
      rw [hhead, List.head?_takeWhile] at hc
      exact (Option.mem_filter_iff.mp hc).1
    obtain ⟨bs, hbs, heq⟩ := exists_eq_trimEnd_append head
    rw [String.toList_ofList, trim, hstart]
    exact ⟨bs, hbs, heq⟩

/-- The last segment of a signature is the name before its first parenthesis. -/
theorem getLast?_segments_of_isSignature {call owner name : String} (hcall : Trimmed call.toList)
    (hsignature : IsSignature call) (hname : Name.Simple name)
    (h : callee? call = some (owner ++ "." ++ name)) :
    (segments call).getLast? = some name := by
  obtain ⟨hclosed, hnone⟩ := hsignature
  obtain ⟨bs, hbs, hhead⟩ := exists_of_callee? hcall h
  simp only [String.toList_append, List.append_assoc] at hhead
  rw [show ".".toList = ['.'] from rfl, List.singleton_append] at hhead
  have hplain : ∀ c ∈ '.' :: (name.toList ++ bs), isBracket c = false := by
    refine List.forall_mem_cons.mpr ⟨by decide, fun c hc => ?_⟩
    rcases List.mem_append.mp hc with hc | hc
    · exact (hname.plain c hc).2.1
    · exact isBracket_of_isBlank (hbs c hc)
  have howner : Closed owner.toList := by
    have hfilter : ('.' :: (name.toList ++ bs)).filter isBracket = [] :=
      List.filter_eq_nil_iff.mpr fun c hc => by simp [hplain c hc]
    refine (closed_congr ?_).mp hclosed
    rw [hhead, List.filter_append, hfilter, List.append_nil]
  have hword : '.' ∉ name.toList ++ bs := by
    rw [List.mem_append]
    rintro (hdot | hdot)
    · exact hname.not_mem_dot hdot
    · exact absurd (hbs _ hdot) (by decide)
  have hlast : names (name.toList ++ bs) = [name.toList] := by
    rw [names_of_not_mem hword, trim_append_blanks _ hbs, ← names_of_not_mem hname.not_mem_dot,
      hname.names_eq]
  set rest := call.toList.dropWhile (· ≠ '(') with hrest
  have hbare : bare call.toList = bare owner.toList ++ '.' :: (name.toList ++ bs ++ bare rest) :=
    calc bare call.toList
      _ = bare (call.toList.takeWhile (· ≠ '(') ++ rest) := by
        rw [hrest, List.takeWhile_append_dropWhile]
      _ = bare (owner.toList ++ '.' :: (name.toList ++ bs)) ++ bare rest := by
        rw [hclosed.bare_append, hhead]
      _ = bare owner.toList ++ '.' :: (name.toList ++ bs ++ bare rest) := by
        rw [howner.bare_append, bare_of_forall hplain, List.append_assoc, List.cons_append]
  rw [segments_eq, hbare, names_append_dot, names_append_of_names_eq_nil hword hnone, hlast]
  simp

theorem not_mem_dot_of_mem_segments {call s : String} (h : s ∈ segments call) :
    '.' ∉ s.toList := by
  rw [segments_eq] at h
  obtain ⟨name, hname, rfl⟩ := List.mem_map.mp h
  rw [String.toList_ofList]
  exact not_mem_of_mem_names hname

end Call

/-! ## What the tiers find -/

namespace Index

variable {types : List TypeRecord} {index : Index} (hindex : build types = .ok index)
  (hnames : index.SimpleNames)
include hindex hnames

/-- The direct tier finds the method that is named before the first parenthesis. -/
theorem name_of_findIn_direct {call : String} {segments : List String} {context : Context}
    {m : Method} (h : index.findIn call segments context .direct = .ok (some m)) :
    ∃ owner name, Call.callee? call = some (owner ++ "." ++ name) ∧ m.name = .text name ∧
      Name.Simple name := by
  simp only [findIn, Except.ok.injEq, Option.bind_eq_some_iff] at h
  obtain ⟨key, hkey, hm⟩ := h
  obtain ⟨owner, name, rfl, hname, hsimple⟩ := exists_of_method? hindex hnames hm
  exact ⟨owner, name, hkey, hname, hsimple⟩

/-- Every other tier finds a method with the name of the last segment. -/
theorem name_of_findIn {call : String} {segments : List String}
    (hdots : ∀ s ∈ segments, '.' ∉ s.toList) {context : Context} {tier : Tier}
    (htier : tier ≠ .direct) {m : Method}
    (h : index.findIn call segments context tier = .ok (some m)) :
    ∃ name, segments.getLast? = some name ∧ m.name = .text name := by
  cases tier with
  | direct => exact absurd rfl htier
  | chain => exact name_of_follow hindex hnames hdots h
  | className =>
    simp only [findIn, Except.ok.injEq] at h
    split at h
    · rename_i name typeName rest hreverse
      refine ⟨name, ?_, ?_⟩
      · rw [← List.head?_reverse, hreverse]
        rfl
      · unfold methodOfType? at h
        split at h
        · have hfound := List.find?_some h
          simp only [Bool.and_eq_true, decide_eq_true_eq] at hfound
          exact hfound.2
        · cases h
    · cases h
  | bareName =>
    simp only [findIn] at h
    split at h
    · rename_i name
      exact ⟨name, rfl,
        name_of_lookupMember hindex hnames (hdots name List.mem_cons_self) h⟩
    · cases h
  | nameAnywhere =>
    simp only [findIn, Except.ok.injEq, Option.bind_eq_some_iff] at h
    obtain ⟨name, hlast, hm⟩ := h
    exact ⟨name, hlast, by simpa using List.find?_some hm⟩

end Index

/-- A class outside any package with methods that make no calls. -/
def TypeRecord.offering (name : String) (methods : List String) : TypeRecord where
  name := .text name
  packageName := .null
  kind := .null
  fields := none
  methods := some (methods.map (Method.calling · []))
  parent := .null
  interfaces := []
  annotations := []
  filePath := .null

namespace Conventions

/-- The method that a call is resolved to has the name of the last segment of the call, in every
tier; in the direct tier, where nothing is named behind the first argument list. -/
theorem name_of_resolve {conventions : Conventions} {types : List TypeRecord} {index : Index}
    (hindex : Index.build types = .ok index) (hnames : index.SimpleNames) {raw : String}
    {context : Context} {target : Method} {signature : String} {tier : Tier}
    (h : conventions.resolve index (.text raw) context = .ok (.method target signature tier))
    (hdirect : tier = .direct → Call.IsSignature (Call.unqualified raw)) :
    ∃ name, (Call.segments (Call.unqualified raw)).getLast? = some name ∧
      target.name = .text name := by
  obtain ⟨call, tiers, found, m, hcall, hsegments, hfirst, hfound⟩ := exists_found_of_resolve h
  obtain ⟨rfl, rfl, -⟩ := Resolution.of_found hfound
  have hcall : call = Call.unqualified raw := by
    simp only [Datum.callText] at hcall
    split at hcall
    · -- an empty call has no segments, so it is resolved to nothing
      cases hcall
      exact absurd rfl hsegments
    · cases hcall
      rfl
  subst hcall
  have hfound := Index.findIn_of_firstFound hfirst
  by_cases htier : found = .direct
  · rw [htier] at hfound
    obtain ⟨owner, name, hcallee, hname, hsimple⟩ :=
      Index.name_of_findIn_direct hindex hnames hfound
    have hsignature := hdirect htier
    exact ⟨name, Call.getLast?_segments_of_isSignature (Call.trimmed_unqualified raw) hsignature
      hsimple hcallee, hname⟩
  · exact Index.name_of_findIn hindex hnames (fun s => Call.not_mem_dot_of_mem_segments) htier hfound

/-- A call with blanks and arguments that the direct tier resolves. -/
theorem name_of_resolve_sample :
    ∃ name, (Call.segments (Call.unqualified "this. app.Stock.take (order.item())")).getLast? =
        some name ∧
      ((Method.calling "take" ["itemRepository.save(item)", "take(item)"]).ownedBy
        Corpus.stock).name = .text name :=
  name_of_resolve (Index.build_eq_ofTypes (show Corpus.WellTyped Corpus.sample by decide))
    (by decide)
    (show Conventions.default.resolve (Index.ofTypes Corpus.sample)
        (.text "this. app.Stock.take (order.item())") ⟨.text "app.Shop", [], [], []⟩ =
      .ok (.method _ "app.Stock.take()" .direct) by decide +kernel)
    (fun _ => by decide +kernel)

/-- In `A.b(x).c()` the method that is called is `c`, but the direct tier looks no further than the
first parenthesis and finds `b`. -/
theorem exists_other_name :
    ∃ types index target signature, Index.build types = .ok index ∧ index.SimpleNames ∧
      Conventions.default.resolve index (.text "A.b(x).c()") ⟨.text "A", [], [], []⟩ =
        .ok (.method target signature .direct) ∧
      target.name = .text "b" ∧
      (Call.segments (Call.unqualified "A.b(x).c()")).getLast? = some "c" :=
  ⟨[.offering "A" ["b"], .offering "C" ["c"]], .ofTypes [.offering "A" ["b"], .offering "C" ["c"]],
    (Method.calling "b" []).ownedBy (.offering "A" ["b"]), "A.b()", rfl, by decide,
    by decide +kernel, rfl, by decide +kernel⟩

end Conventions

end EntryFlow
