import EntryFlow.Proofs.Brackets

/-!
# Chains that are written and read

A chain is written by joining its links with dots. Around the name of a link there may be blanks,
type arguments and argument lists. Reading drops them and gives the names back. An argument list may
hold anything as long as its parentheses are balanced: dots, quotes, angle brackets that nothing
closes.

## Main definitions

* `Text.Balanced`: texts that close the brackets of one kind which they open.
* `Call.Silent`: a text of which nothing is read, from some open brackets to others.
* `Call.Filler`, `Call.Link`, `Call.render`: the written form of a chain.

## Main statements

* `Call.Silent.of_balanced`: nothing is read inside brackets, and as many are open behind it.
* `Call.segments_render`: the segments of a written chain are its names.
-/

namespace EntryFlow

/-- The brackets of one kind in a text are balanced: each that is opened is closed behind it, and no
other is closed. -/
inductive Text.Balanced (opening closing : Char) : List Char → Prop where
  | nil : Balanced opening closing []
  | plain {c : Char} {cs : List Char} (hopening : c ≠ opening) (hclosing : c ≠ closing)
      (rest : Balanced opening closing cs) : Balanced opening closing (c :: cs)
  | group {inner cs : List Char} (content : Balanced opening closing inner)
      (rest : Balanced opening closing cs) :
      Balanced opening closing (opening :: (inner ++ closing :: cs))

namespace Call

open Text

/-! ## Texts of which nothing is read -/

theorem openAfter_append (paren angle : Nat) (xs ys : List Char) :
    openAfter paren angle (xs ++ ys) =
      openAfter (openAfter paren angle xs).1 (openAfter paren angle xs).2 ys := by
  fun_induction openAfter paren angle xs <;> simp_all [openAfter]

theorem Closed.append {xs ys : List Char} (hx : Closed xs) (hy : Closed ys) :
    Closed (xs ++ ys) := by
  rw [Closed, openAfter_append, show openAfter 0 0 xs = (0, 0) from hx]
  exact hy

theorem closed_of_forall {cs : List Char} (h : ∀ c ∈ cs, isBracket c = false) : Closed cs := by
  have hnone : cs.filter isBracket = [].filter isBracket :=
    List.filter_eq_nil_iff.mpr fun c hc => by simp [h c hc]
  exact (closed_congr hnone).mpr rfl

/-- Nothing of the text is read, and where the brackets `s` are open before it, those of `t` are
open behind it. Parentheses are counted first and angle brackets second. -/
structure Silent (s t : Nat × Nat) (cs : List Char) : Prop where
  openAfter_eq : openAfter s.1 s.2 cs = t
  bareFrom_eq : bareFrom s.1 s.2 cs = []

namespace Silent

variable {s t u : Nat × Nat}

theorem append {xs ys : List Char} (hx : Silent s t xs) (hy : Silent t u ys) :
    Silent s u (xs ++ ys) where
  openAfter_eq := by rw [openAfter_append, hx.openAfter_eq, hy.openAfter_eq]
  bareFrom_eq := by
    rw [bareFrom_append, hx.bareFrom_eq, hx.openAfter_eq, hy.bareFrom_eq, List.append_nil]

theorem cons {c : Char} {cs : List Char} (hc : Silent s t [c]) (hcs : Silent t u cs) :
    Silent s u (c :: cs) :=
  hc.append hcs

/-- Where nothing is read at any depth of brackets of one kind, nothing is read of a text in which
they are balanced, and it ends at the depth at which it starts. -/
theorem of_balanced (state : Nat → Nat × Nat) {opening closing : Char} {cs : List Char}
    (h : Balanced opening closing cs)
    (hopen : ∀ depth, Silent (state depth) (state (depth + 1)) [opening])
    (hclose : ∀ depth, Silent (state (depth + 1)) (state depth) [closing])
    (hplain : ∀ c ∈ cs, c ≠ opening → c ≠ closing →
      ∀ depth, Silent (state depth) (state depth) [c])
    (depth : Nat) : Silent (state depth) (state depth) cs := by
  induction h generalizing depth with
  | nil => exact ⟨rfl, rfl⟩
  | plain hopening hclosing rest ih =>
    obtain ⟨hc, hcs⟩ := List.forall_mem_cons.mp hplain
    exact (hc hopening hclosing depth).cons (ih hcs depth)
  | group content rest ihcontent ihrest =>
    simp only [List.mem_cons, List.mem_append] at hplain
    have hcontent := ihcontent (fun c hc => hplain c (.inr (.inl hc))) (depth + 1)
    have hrest := ihrest (fun c hc => hplain c (.inr (.inr (.inr hc)))) depth
    exact (hopen depth).cons (hcontent.append ((hclose depth).cons hrest))

/-- Nothing is read inside parentheses. -/
theorem of_parentheses {cs : List Char} (h : Balanced '(' ')' cs) :
    Silent (0, 0) (0, 0) ('(' :: (cs ++ [')'])) := by
  have hopen : Silent (0, 0) (1, 0) ['('] := ⟨rfl, rfl⟩
  have hcs : Silent (1, 0) (1, 0) cs := by
    refine of_balanced (fun depth => (depth + 1, 0)) h (fun _ => ⟨rfl, rfl⟩)
      (fun _ => ⟨rfl, rfl⟩) (fun c _ hopening hclosing depth => ?_) 0
    constructor <;> simp [openAfter, bareFrom, hopening, hclosing]
  have hclose : Silent (1, 0) (0, 0) [')'] := ⟨rfl, rfl⟩
  exact hopen.cons (hcs.append hclose)

/-- Nothing is read inside angle brackets. Parentheses would hide some of them. -/
theorem of_angleBrackets {cs : List Char} (h : Balanced '<' '>' cs)
    (hcs : ∀ c ∈ cs, c ≠ '(' ∧ c ≠ ')') : Silent (0, 0) (0, 0) ('<' :: (cs ++ ['>'])) := by
  have hopen : Silent (0, 0) (0, 1) ['<'] := ⟨rfl, rfl⟩
  have hcs : Silent (0, 1) (0, 1) cs := by
    refine of_balanced (fun depth => (0, depth + 1)) h (fun _ => ⟨rfl, rfl⟩)
      (fun _ => ⟨rfl, rfl⟩) (fun c hc hopening hclosing depth => ?_) 0
    constructor <;> simp [openAfter, bareFrom, hcs c hc, hopening, hclosing]
  have hclose : Silent (0, 1) (0, 0) ['>'] := ⟨rfl, rfl⟩
  exact hopen.cons (hcs.append hclose)

end Silent

/-! ## The written form -/

/-- What may stand around the name of a link. -/
inductive Filler where
  | blank (c : Char) (isBlank : Text.isBlank c = true)
  | typeArguments (content : List Char) (balanced : Balanced '<' '>' content)
      (unparenthesized : ∀ c ∈ content, c ≠ '(' ∧ c ≠ ')')
  | arguments (content : List Char) (balanced : Balanced '(' ')' content)

/-- The text of a filler, in its brackets. -/
def Filler.text : Filler → List Char
  | blank c _ => [c]
  | typeArguments content _ _ => '<' :: (content ++ ['>'])
  | arguments content _ => '(' :: (content ++ [')'])

/-- The text is not empty, has no blanks at its ends, and no dots or brackets. -/
structure IsLinkName (s : String) : Prop where
  ne_empty : s ≠ ""
  trimmed : Trimmed s.toList
  plain : ∀ c ∈ s.toList, c ≠ '.' ∧ isBracket c = false

instance (s : String) : Decidable (IsLinkName s) :=
  letI : Decidable (∀ c ∈ s.toList, c ≠ '.' ∧ isBracket c = false) := List.decidableBAll _ _
  decidable_of_iff (s ≠ "" ∧ Trimmed s.toList ∧ ∀ c ∈ s.toList, c ≠ '.' ∧ isBracket c = false)
    ⟨fun ⟨a, b, c⟩ => ⟨a, b, c⟩, fun ⟨a, b, c⟩ => ⟨a, b, c⟩⟩

/-- A link of a chain as it is written: a name, before it for example blanks or type arguments,
behind it for example type arguments and any number of argument lists. -/
structure Link where
  before : List Filler
  name : String
  after : List Filler
  isLinkName : IsLinkName name

/-- The text of a link. -/
def Link.text (l : Link) : List Char :=
  l.before.flatMap Filler.text ++ (l.name.toList ++ l.after.flatMap Filler.text)

/-- The links of a chain with dots between them. -/
def render (chain : List Link) : String :=
  ".".intercalate (chain.map fun l => String.ofList l.text)

/-! ## Reading it -/

/-- The text can be read for itself, and only blanks are read of it. -/
structure ReadsBlank (cs : List Char) : Prop where
  closed : Closed cs
  isBlank_of_mem : ∀ c ∈ bare cs, isBlank c = true

theorem Silent.readsBlank {cs : List Char} (h : Silent (0, 0) (0, 0) cs) : ReadsBlank cs where
  closed := h.openAfter_eq
  isBlank_of_mem := by simp [show bare cs = [] from h.bareFrom_eq]

theorem ReadsBlank.append {xs ys : List Char} (hx : ReadsBlank xs) (hy : ReadsBlank ys) :
    ReadsBlank (xs ++ ys) where
  closed := hx.closed.append hy.closed
  isBlank_of_mem c hc := by
    rw [hx.closed.bare_append, List.mem_append] at hc
    exact hc.elim (hx.isBlank_of_mem c) (hy.isBlank_of_mem c)

theorem Filler.readsBlank (f : Filler) : ReadsBlank f.text := by
  cases f with
  | blank c hblank =>
    have hc : ∀ d ∈ [c], isBracket d = false := by simpa using isBracket_of_isBlank hblank
    refine ⟨closed_of_forall hc, ?_⟩
    rw [show bare (blank c hblank).text = [c] from bare_of_forall hc]
    simpa using hblank
  | typeArguments content balanced unparenthesized =>
    exact (Silent.of_angleBrackets balanced unparenthesized).readsBlank
  | arguments content balanced => exact (Silent.of_parentheses balanced).readsBlank

theorem readsBlank_fillers (fs : List Filler) : ReadsBlank (fs.flatMap Filler.text) := by
  induction fs with
  | nil => exact ⟨rfl, by simp [bare, bareFrom]⟩
  | cons f fs ih => exact f.readsBlank.append ih

namespace IsLinkName

variable {s : String} (h : IsLinkName s)
include h

theorem closed : Closed s.toList :=
  closed_of_forall fun c hc => (h.plain c hc).2

theorem bare_eq : bare s.toList = s.toList :=
  bare_of_forall fun c hc => (h.plain c hc).2

theorem names_eq : names s.toList = [s.toList] := by
  have hdot : '.' ∉ s.toList := fun hdot => (h.plain _ hdot).1 rfl
  have hne : s.toList ≠ [] := fun hnil => h.ne_empty (String.toList_inj.mp hnil)
  rw [names_of_not_mem hdot, trim_eq_self h.trimmed, if_neg hne]

end IsLinkName

namespace Link

variable (l : Link)

theorem closed_text : Closed l.text :=
  (readsBlank_fillers l.before).closed.append
    (l.isLinkName.closed.append (readsBlank_fillers l.after).closed)

/-- The name is all that is read of a link. -/
theorem names_text : names (bare l.text) = [l.name.toList] := by
  have hbefore := readsBlank_fillers l.before
  have hafter := readsBlank_fillers l.after
  rw [text, hbefore.closed.bare_append, l.isLinkName.closed.bare_append, l.isLinkName.bare_eq,
    names_blanks_append hbefore.isBlank_of_mem, names_append_blanks _ hafter.isBlank_of_mem,
    l.isLinkName.names_eq]

end Link

/-- The names before a dot at which no bracket is open, and those behind it. -/
theorem Closed.names_bare_append_dot {xs : List Char} (h : Closed xs) (ys : List Char) :
    names (bare (xs ++ '.' :: ys)) = names (bare xs) ++ names (bare ys) := by
  rw [h.bare_append, ← names_append_dot]
  rfl

/-- Reading a chain gives back its names, whatever stands around them. -/
theorem segments_render (chain : List Link) : segments (render chain) = chain.map Link.name := by
  have hnames : names (bare (render chain).toList) = chain.map fun l => l.name.toList := by
    induction chain with
    | nil => rfl
    | cons l chain ih =>
      cases chain with
      | nil => simpa [render] using l.names_text
      | cons k chain =>
        have htext : (render (l :: k :: chain)).toList =
            l.text ++ '.' :: (render (k :: chain)).toList := by
          simp [render, String.intercalate_cons_cons]
        rw [htext, l.closed_text.names_bare_append_dot, l.names_text, ih]
        rfl
  rw [segments_eq, hnames, List.map_map]
  exact List.map_congr_left fun l _ => String.ofList_toList

/-- An angle bracket that is open in an argument list hides nothing. -/
example :
    render [⟨[.blank ' ' rfl], "shop", [.arguments ['<', '.'] (.plain (by decide) (by decide)
          (.plain (by decide) (by decide) .nil))], by decide⟩, ⟨[], "first", [], by decide⟩] =
        " shop(<.).first" ∧
      segments " shop(<.).first" = ["shop", "first"] := by
  decide +kernel

end Call

end EntryFlow
