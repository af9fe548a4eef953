import EntryFlow.Java.Declarations
import EntryFlow.Java.Token
import EntryFlow.Proofs.Brackets

/-!
# The text of a call and the name that is read in it

A call in a source becomes the text of its receiver, with the argument lists emptied, and the called
name. Resolution reads the called name back as the last segment of that text. Both count brackets
without regard to literals. So they agree where the receiver closes the brackets that it opens, and
where it does not, as in `text.add("(").render()`, the called name is not read at all.

## Main definitions

* `Lexer.IsName`: texts that are read as one name.

## Main statements

* `Tree.getLast?_segments_of_call?`: the last segment of a call is the called name.
* `Tree.segments_callText_of_not_closed`: behind an open bracket the called name does not matter.
* `Tree.exists_lost_name`: a call whose name is not read.
-/

namespace EntryFlow.Java

open Text Call

/-- The text is a name: its first character may start one, and all may go on with one. -/
structure Lexer.IsName (s : String) : Prop where
  ne_empty : s ≠ ""
  starts : ∀ c ∈ s.toList.head?, startsName c = true
  continues : ∀ c ∈ s.toList, continuesName c = true

instance (s : String) : Decidable (Lexer.IsName s) :=
  letI : Decidable (∀ c ∈ s.toList.head?, Lexer.startsName c = true) := Option.decidableForallMem _
  letI : Decidable (∀ c ∈ s.toList, Lexer.continuesName c = true) := List.decidableBAll _ _
  decidable_of_iff (s ≠ "" ∧ (∀ c ∈ s.toList.head?, Lexer.startsName c = true) ∧
      ∀ c ∈ s.toList, Lexer.continuesName c = true)
    ⟨fun ⟨a, b, c⟩ => ⟨a, b, c⟩, fun ⟨a, b, c⟩ => ⟨a, b, c⟩⟩

theorem isBlank_of_isAlphanum {c : Char} (h : c.isAlphanum = true) : isBlank c = false := by
  change (decide ('A'.val ≤ c.val ∧ c.val ≤ 'Z'.val) ||
    (decide ('a'.val ≤ c.val) && decide (c.val ≤ 'z'.val)) ||
    (decide ('0'.val ≤ c.val) && decide (c.val ≤ '9'.val))) = true at h
  simp only [Bool.or_eq_true, Bool.and_eq_true, decide_eq_true_eq, UInt32.le_iff_toNat_le] at h
  change ((65 ≤ c.toNat ∧ c.toNat ≤ 90) ∨ (97 ≤ c.toNat ∧ c.toNat ≤ 122)) ∨
    (48 ≤ c.toNat ∧ c.toNat ≤ 57) at h
  by_contra hblank
  simp only [Bool.not_eq_false, isBlank, Bool.or_eq_true, Bool.and_eq_true, decide_eq_true_eq,
    beq_iff_eq] at hblank
  omega

/-- No character of a name is a dot, a bracket or a blank. -/
theorem Lexer.plain_of_continuesName {c : Char} (h : continuesName c = true) :
    c ≠ '.' ∧ isBracket c = false ∧ isBlank c = false := by
  refine ⟨?_, ?_, ?_⟩
  · rintro rfl
    exact absurd h (by decide)
  · by_contra hbracket
    simp only [Bool.not_eq_false, isBracket, Bool.or_eq_true, decide_eq_true_eq] at hbracket
    rcases hbracket with ((rfl | rfl) | rfl) | rfl <;> exact absurd h (by decide)
  · simp only [continuesName, startsName, Bool.or_eq_true, Bool.and_eq_true, decide_eq_true_eq,
      Bool.not_eq_true'] at h
    rcases h with (((h | rfl) | rfl) | ⟨-, h⟩) | h
    · exact isBlank_of_isAlphanum (by simp [Char.isAlphanum, h])
    · decide
    · decide
    · exact h
    · exact isBlank_of_isAlphanum (by simp [Char.isAlphanum, h])

theorem Lexer.IsName.simple {s : String} (h : IsName s) : Name.Simple s where
  ne_empty := h.ne_empty
  plain c hc := plain_of_continuesName (h.continues c hc)

namespace Tree

/-! ## Reading a call -/

/-- What of a receiver stands in the text of a call leaves the same brackets open. -/
theorem closed_emptyArguments_oneLine (receiver : String) :
    Closed (emptyArgumentsFrom 0 (oneLine receiver).toList) ↔ Closed receiver.toList := by
  rw [closed_emptyArgumentsFrom, oneLine, String.toList_ofList, closed_squeeze]

theorem closed_trimStart {cs : List Char} : Closed (trimStart cs) ↔ Closed cs :=
  closed_congr (filter_trimStart (fun _ => isBracket_of_isBlank) cs)

section Segments

variable {name : String} (hname : Name.Simple name)
include hname

/-- The name behind the last dot is kept when self qualifiers are dropped. What is left before it
does not depend on the name, unless nothing is. -/
theorem unqualified_append_dot (front : List Char) :
    unqualified (String.ofList front ++ "." ++ name) =
        String.ofList (dropQualifiers (trimStart front) ++ '.' :: name.toList) ∨
      Closed front ∧ unqualified (String.ofList front ++ "." ++ name) = name := by
  have htext : (String.ofList front ++ "." ++ name).toList = front ++ '.' :: name.toList := by simp
  have hend : ∀ c ∈ (trimStart front ++ '.' :: name.toList).getLast?, isBlank c = false := by
    intro c hc
    have hdot : Trimmed ['.'] := by decide
    refine (hdot.append hname.trimmed).last c ?_
    rw [List.getLast?_append] at hc
    simpa using hc
  have htrim : trim (front ++ '.' :: name.toList) = trimStart front ++ '.' :: name.toList := by
    rw [trim, trimStart_append_cons front (by decide), trimEnd_eq_self hend]
  rw [unqualified, htext, htrim]
  rcases dropQualifiers_append_dot hname.not_mem_dot hname.trimmed.head (trimStart front) with
    hkept | ⟨hclosed, hall⟩
  · exact .inl (congrArg String.ofList hkept)
  · exact .inr ⟨closed_trimStart.mp hclosed, by rw [hall, String.ofList_toList]⟩

/-- The last segment of the text of a call is the called name, where the receiver closes the
brackets that it opens. -/
theorem getLast?_segments_callText {receiver : Option String}
    (hclosed : ∀ r ∈ receiver, Closed r.toList) :
    (segments (unqualified (callText receiver name))).getLast? = some name := by
  cases receiver with
  | none =>
    have hself : unqualified name = name := by
      rw [unqualified, trim_eq_self hname.trimmed, dropQualifiers_of_not_mem hname.not_mem_dot,
        String.ofList_toList]
    rw [callText, hself, hname.segments_eq]
    rfl
  | some r =>
    have hfront := (closed_emptyArguments_oneLine r).mpr (hclosed r rfl)
    rw [callText, emptyArguments]
    generalize emptyArgumentsFrom 0 (oneLine r).toList = front at hfront
    rcases unqualified_append_dot hname front with hkept | ⟨-, hall⟩
    · have hleft : Closed (dropQualifiers (trimStart front)) := by
        rwa [closed_dropQualifiers, closed_trimStart]
      have hdot : bare ('.' :: name.toList) = '.' :: bare name.toList := rfl
      rw [hkept, segments_eq, String.toList_ofList, hleft.bare_append, hdot, names_append_dot,
        hname.bare_eq, hname.names_eq]
      simp
    · rw [hall, hname.segments_eq]
      rfl

/-- Behind a receiver that leaves a bracket open the called name is not read. -/
theorem segments_callText_of_not_closed {receiver : String} (hopen : ¬ Closed receiver.toList)
    {other : String} (hother : Name.Simple other) :
    segments (unqualified (callText (some receiver) name)) =
      segments (unqualified (callText (some receiver) other)) := by
  have hfront := mt (closed_emptyArguments_oneLine receiver).mp hopen
  simp only [callText, emptyArguments]
  generalize emptyArgumentsFrom 0 (oneLine receiver).toList = front at hfront
  have hleft : ¬ Closed (dropQualifiers (trimStart front)) := by
    rwa [closed_dropQualifiers, closed_trimStart]
  have hlost : ∀ {s : String}, Name.Simple s →
      segments (unqualified (String.ofList front ++ "." ++ s)) =
        (names (bare (dropQualifiers (trimStart front)))).map String.ofList := by
    intro s hs
    have hplain : ∀ c ∈ '.' :: s.toList, isBracket c = false :=
      List.forall_mem_cons.mpr ⟨by decide, fun c hc => (hs.plain c hc).2.1⟩
    rcases unqualified_append_dot hs front with hkept | ⟨hclosed, -⟩
    · rw [hkept, segments_eq, String.toList_ofList, bare_append_of_not_closed hleft hplain]
    · exact absurd hclosed hfront
  rw [hlost hname, hlost hother]

end Segments

/-! ## Calls of a source -/

/-- The last segment of the text that a call node gives is the name that the node calls, where the
receiver closes the brackets that it opens. -/
theorem getLast?_segments_of_call? {t : Tree} {call : String} (hcall : t.call? = some call)
    (hname : Lexer.IsName (t.childText .name))
    (hclosed : ∀ receiver ∈ t.child? .receiver, Closed receiver.text.toList) :
    (segments (unqualified call)).getLast? = some (t.childText .name) := by
  unfold call? at hcall
  split at hcall
  · cases hcall
    refine getLast?_segments_callText hname.simple fun r hr => ?_
    obtain ⟨receiver, hreceiver, rfl⟩ := Option.map_eq_some_iff.mp hr
    exact hclosed receiver hreceiver
  · cases hcall

/-- A call node with a receiver; the parts between them are left out. -/
def callNode (text receiver name : String) : Tree :=
  .node .call none text
    [.node .construct (some .receiver) receiver [], .node .name (some .name) name []]

/-- The receiver has arguments on a line of their own, with brackets of every kind. -/
theorem getLast?_segments_of_call?_sample :
    (segments (unqualified "repo.<Order>find().orElse")).getLast? =
      some ((callNode "repo.<Order>find(\n  ids.get(0))  .orElse(null)"
        "repo.<Order>find(\n  ids.get(0))" "orElse").childText .name) :=
  getLast?_segments_of_call? (by decide +kernel) (by decide +kernel) (by decide +kernel)

/-- In `text.add("(").render()` the name `render` is called. The parenthesis in the literal counts
as one that is left open, so the arguments stay in the text of the call, as does what follows them,
and the last name that is read is `add`. -/
theorem exists_lost_name :
    ∃ t call, call? t = some call ∧ Lexer.IsName (t.childText .name) ∧
      t.childText .name = "render" ∧ call = "text.add(.render" ∧
      segments (unqualified call) = ["text", "add"] :=
  ⟨callNode "text.add(\"(\").render()" "text.add(\"(\")" "render", "text.add(.render",
    by decide +kernel, by decide +kernel, rfl, rfl, by decide +kernel⟩

end Tree

end EntryFlow.Java
