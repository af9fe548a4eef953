import EntryFlow.Proofs.Totality

/-!
# Types along a chain of calls

A chain of calls is walked twice. `Index.typeTrail` lists the types that the calls before the last
one lead to, and `Index.follow` finds the method that the last call refers to. Both walks take the
same steps from type to type. So the method is the one that the last type of a complete trail has,
and a chain whose trail breaks off leads to no method.

## Main definitions

* `Index.callType`: the type that one call leads to, the step of both walks.

## Main statements

* `Index.followFrom_of_trailFrom`: the second walk, read off the first one.
* `Index.prefix_typeTrail`: a further call only adds to the trail.
* `Index.follow_iff_typeTrail`: when a chain leads to a method.
-/

namespace EntryFlow.Index

variable {index : Index}

/-! ## One call -/

/-- The type that a call of `name` on the type `current` leads to, if it is known. -/
def callType (index : Index) (current name : String) : Except Fault (Option String) := do
  match ← index.lookupMember (.text current) name with
  | none => return none
  | some m =>
    if m.returnType.isEmpty then return none
    return some (← index.resolveType m.returnType)

theorem trailFrom_cons (current name : String) (names : List String) :
    index.trailFrom current (name :: names) = do
      match ← index.callType current name with
      | none => return []
      | some next => return next :: (← index.trailFrom next names) := by
  rw [trailFrom, callType]
  cases hfound : index.lookupMember (.text current) name with
  | error fault => rfl
  | ok found =>
    cases found with
    | none => rfl
    | some m =>
      simp only [ok_bind]
      split
      · rfl
      · cases index.resolveType m.returnType <;> rfl

theorem followFrom_singleton (current name : String) :
    index.followFrom current [name] = index.lookupMember (.text current) name := by
  rw [followFrom]
  cases hfound : index.lookupMember (.text current) name with
  | error fault => rfl
  | ok found => cases found <;> rfl

theorem followFrom_cons_cons (current name next : String) (names : List String) :
    index.followFrom current (name :: next :: names) =
      (do
        match ← index.callType current name with
        | none => return none
        | some type => index.followFrom type (next :: names)) := by
  rw [followFrom, callType]
  cases hfound : index.lookupMember (.text current) name with
  | error fault => rfl
  | ok found =>
    cases found with
    | none => rfl
    | some m =>
      simp only [ok_bind, List.isEmpty_cons, Bool.false_eq_true, if_false]
      split
      · rfl
      · cases index.resolveType m.returnType <;> rfl

/-! ## Several calls -/

/-- The last call is looked up on the last type of the trail of those before it. Where that trail
breaks off, there is nothing to look up. -/
theorem followFrom_of_trailFrom {names : List String} (hnames : names ≠ []) {current : String}
    {trail : List String} (h : index.trailFrom current names.dropLast = .ok trail) :
    index.followFrom current names =
      if trail.length + 1 = names.length then
        index.lookupMember (.text ((current :: trail).getLast (List.cons_ne_nil _ _)))
          (names.getLast hnames)
      else .ok none := by
  induction names generalizing current trail with
  | nil => exact absurd rfl hnames
  | cons name names ih =>
    cases names with
    | nil =>
      cases h
      exact followFrom_singleton current name
    | cons next names =>
      rw [List.dropLast_cons_cons, trailFrom_cons] at h
      rw [followFrom_cons_cons]
      obtain ⟨type?, htype, h⟩ := bind_eq_ok_iff.mp h
      rw [htype, ok_bind]
      cases type? with
      | none =>
        cases h
        simp [pure, Except.pure]
      | some type =>
        obtain ⟨rest, hrest, h⟩ := bind_eq_ok_iff.mp h
        cases h
        simp only [ih (List.cons_ne_nil _ _) hrest, List.length_cons, Nat.add_right_cancel_iff,
          List.getLast_cons_cons]

theorem prefix_trailFrom {names more trail longer : List String} {current : String}
    (h : index.trailFrom current names = .ok trail)
    (hlonger : index.trailFrom current (names ++ more) = .ok longer) : trail <+: longer := by
  induction names generalizing current trail longer with
  | nil =>
    cases h
    exact List.nil_prefix
  | cons name names ih =>
    rw [List.cons_append, trailFrom_cons] at hlonger
    rw [trailFrom_cons] at h
    obtain ⟨type?, htype, h⟩ := bind_eq_ok_iff.mp h
    rw [htype, ok_bind] at hlonger
    cases type? with
    | none =>
      cases h
      exact List.nil_prefix
    | some type =>
      obtain ⟨rest, hrest, h⟩ := bind_eq_ok_iff.mp h
      obtain ⟨longerRest, hlongerRest, hlonger⟩ := bind_eq_ok_iff.mp hlonger
      cases h
      cases hlonger
      exact List.cons_prefix_cons.mpr ⟨rfl, ih hrest hlongerRest⟩

/-! ## A chain with its receiver -/

variable {context : Context}

/-- A chain leads to a method exactly where every call before the last one leads to a type. -/
theorem follow_eq_some_iff {segments trail : List String}
    (h : index.typeTrail segments context = .ok trail) {m : Method} :
    index.follow segments context = .ok (some m) ↔
      2 ≤ segments.length ∧ trail.length = segments.length - 1 ∧
        ∃ type name, trail.getLast? = some type ∧ segments.getLast? = some name ∧
          index.lookupMember (.text type) name = .ok (some m) := by
  match segments with
  | [] => simp [follow, pure, Except.pure]
  | [_] => simp [follow, pure, Except.pure]
  | receiver :: name :: names =>
    rw [typeTrail] at h
    obtain ⟨type?, htype, h⟩ := bind_eq_ok_iff.mp h
    rw [follow, htype, ok_bind]
    cases type? with
    | none =>
      cases h
      simp [pure, Except.pure]
    | some type =>
      obtain ⟨rest, hrest, h⟩ := bind_eq_ok_iff.mp h
      cases h
      simp only [followFrom_of_trailFrom (List.cons_ne_nil _ _) hrest]
      have hlast := List.getLast?_eq_some_getLast (List.cons_ne_nil type rest)
      have hname := List.getLast?_eq_some_getLast (List.cons_ne_nil name names)
      rw [List.getLast?_cons_cons, hlast, hname]
      by_cases hlength : rest.length + 1 = (name :: names).length
      · rw [if_pos hlength]
        simp_all
      · rw [if_neg hlength]
        simp_all

/-- A further call only adds to the trail. -/
theorem prefix_typeTrail {segments trail longer : List String} {further : String}
    (h : index.typeTrail segments context = .ok trail)
    (hlonger : index.typeTrail (segments ++ [further]) context = .ok longer) : trail <+: longer := by
  match segments with
  | [] =>
    cases h
    exact List.nil_prefix
  | [_] =>
    cases h
    exact List.nil_prefix
  | receiver :: name :: names =>
    rw [List.cons_append, List.cons_append, typeTrail] at hlonger
    rw [typeTrail] at h
    obtain ⟨type?, htype, h⟩ := bind_eq_ok_iff.mp h
    rw [htype, ok_bind] at hlonger
    cases type? with
    | none =>
      cases h
      exact List.nil_prefix
    | some type =>
      obtain ⟨rest, hrest, h⟩ := bind_eq_ok_iff.mp h
      obtain ⟨longerRest, hlongerRest, hlonger⟩ := bind_eq_ok_iff.mp hlonger
      cases h
      cases hlonger
      -- what was the last call is now one of those that are walked over
      have hnames : (name :: (names ++ [further])).dropLast = (name :: names).dropLast ++
          [(name :: names).getLast (List.cons_ne_nil _ _)] := by
        rw [← List.cons_append, List.dropLast_concat, List.dropLast_append_getLast]
      rw [hnames] at hlongerRest
      exact List.cons_prefix_cons.mpr ⟨rfl, prefix_trailFrom hrest hlongerRest⟩

/-- Over well-typed records, a chain of calls and the trail of its types agree. The chain leads to a
method if and only if it has a receiver and a call, its trail has a type for the receiver and for
each call before the last one, and the last of these types has the method. Else it leads to none.
The trail of a chain is a prefix of that of the chain with one more call. -/
theorem follow_iff_typeTrail (h : index.WellTyped) (hc : context.WellTyped)
    (segments : List String) :
    ∃ trail found, index.typeTrail segments context = .ok trail ∧
      index.follow segments context = .ok found ∧
      (∀ m, found = some m ↔
        2 ≤ segments.length ∧ trail.length = segments.length - 1 ∧
          ∃ type name, trail.getLast? = some type ∧ segments.getLast? = some name ∧
            index.lookupMember (.text type) name = .ok (some m)) ∧
      ∀ further, ∃ longer, index.typeTrail (segments ++ [further]) context = .ok longer ∧
        trail <+: longer := by
  obtain ⟨trail, htrail, -⟩ := h.total_typeTrail hc segments
  obtain ⟨found, hfound, -⟩ := h.total_follow hc segments
  refine ⟨trail, found, htrail, hfound, fun m => ?_, fun further => ?_⟩
  · rw [← follow_eq_some_iff htrail, hfound, Except.ok.injEq]
  · obtain ⟨longer, hlonger, -⟩ := h.total_typeTrail hc (segments ++ [further])
    exact ⟨longer, hlonger, prefix_typeTrail htrail hlonger⟩

/-- Shelves that hold stocks, whose items have a type that is not indexed. -/
def shelves : Index := .ofTypes
  [{ Corpus.stock with
      name := .text "Shelf"
      methods := some [{ Method.calling "first" [] with returnType := .text "Stock<Item>" }] },
    { Corpus.stock with
      methods := some [{ Method.calling "take" [] with returnType := .text "Item" }] }]

/-- What a method with a parameter `shelf` sees. -/
def besideShelf : Context := ⟨.null, [(.text "shelf", .text "final Shelf")], [], []⟩

/-- A further call goes on to the type of an item, and no method is found there. -/
theorem follow_iff_typeTrail_shelves :
    (∃ trail found, shelves.typeTrail ["shelf", "first", "take"] besideShelf = .ok trail ∧
      shelves.follow ["shelf", "first", "take"] besideShelf = .ok found ∧
      (∀ m, found = some m ↔
        2 ≤ ["shelf", "first", "take"].length ∧
          trail.length = ["shelf", "first", "take"].length - 1 ∧
          ∃ type name, trail.getLast? = some type ∧
            ["shelf", "first", "take"].getLast? = some name ∧
            shelves.lookupMember (.text type) name = .ok (some m)) ∧
      ∀ further, ∃ longer,
        shelves.typeTrail (["shelf", "first", "take"] ++ [further]) besideShelf = .ok longer ∧
        trail <+: longer) ∧
      (shelves.typeTrail ["shelf", "first", "take"] besideShelf).toOption =
        some ["app.Shelf", "app.Stock"] ∧
      (shelves.typeTrail ["shelf", "first", "take", "weigh"] besideShelf).toOption =
        some ["app.Shelf", "app.Stock", "Item"] ∧
      (shelves.follow ["shelf", "first", "take", "weigh"] besideShelf).toOption = some none :=
  ⟨follow_iff_typeTrail (show shelves.WellTyped by decide) ⟨by decide, by decide, by decide⟩ _,
    by decide +kernel⟩

end EntryFlow.Index
