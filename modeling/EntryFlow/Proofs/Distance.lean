import EntryFlow.Digraph
import Mathlib.Data.List.Chain
import Mathlib.Data.List.Nodup
import Mathlib.Data.List.Perm.Subperm

/-!
# Distances and paths along arcs

What it means that one node leads to another, how far it is away, and which lists of nodes are paths
between them. Nothing here is about a search: the arcs are a relation, so that what holds along them
also holds against them.

## Main definitions

* `Digraph.Leads`: a number of arcs one after the other leads from one node to another.
* `Digraph.Away`: how many arcs it takes at least.
* `Digraph.Levelled`: what a search has seen that went some levels from a node.
* `Digraph.IsPath`: the nodes along such arcs.
* `Digraph.Answers`: a path with as few arcs as possible, or nothing where there is none.

## Main statements

* `Digraph.away_succ_iff`: the nodes one arc further away are the new ones behind those before.
* `Digraph.Away.lt_length`: no node is further away than there are nodes.
* `Digraph.Levelled.succ`: what a search has seen after one more level.
* `Digraph.IsPath.nodup`: a path with as few arcs as possible has no node twice.
-/

namespace EntryFlow.Digraph

variable {α : Type} {r : α → α → Prop} {u v w : α} {m n : Nat}

/-! ## Numbers of arcs -/

/-- Some `n` arcs one after the other lead from one node to another. -/
inductive Leads (r : α → α → Prop) : Nat → α → α → Prop where
  | here (u : α) : Leads r 0 u u
  | arc {n : Nat} {u v w : α} : r u v → Leads r n v w → Leads r (n + 1) u w

@[simp] theorem leads_zero_iff : Leads r 0 u v ↔ u = v := by
  constructor
  · rintro ⟨⟩
    rfl
  · rintro rfl
    exact .here u

theorem Leads.trans (h : Leads r m u v) (h' : Leads r n v w) : Leads r (m + n) u w := by
  induction h with
  | here => rwa [Nat.zero_add]
  | arc harc _ ih =>
    rw [Nat.add_right_comm]
    exact .arc harc (ih h')

theorem Leads.concat (h : Leads r n u v) (harc : r v w) : Leads r (n + 1) u w :=
  h.trans (.arc harc (.here w))

/-- Arcs can be cut at any of the nodes between them. -/
theorem leads_add_iff : Leads r (m + n) u w ↔ ∃ v, Leads r m u v ∧ Leads r n v w := by
  refine ⟨fun h => ?_, fun ⟨v, h, h'⟩ => h.trans h'⟩
  induction m generalizing u with
  | zero => exact ⟨u, .here u, by rwa [Nat.zero_add] at h⟩
  | succ m ih =>
    rw [Nat.add_right_comm] at h
    cases h with
    | arc harc h =>
      obtain ⟨v, hm, hn⟩ := ih h
      exact ⟨v, .arc harc hm, hn⟩

theorem leads_succ_iff : Leads r (n + 1) u w ↔ ∃ v, Leads r n u v ∧ r v w := by
  constructor
  · intro h
    obtain ⟨v, h, hlast⟩ := leads_add_iff.mp h
    cases hlast with
    | arc harc hend => exact ⟨v, h, leads_zero_iff.mp hend ▸ harc⟩
  · rintro ⟨v, h, harc⟩
    exact h.concat harc

theorem Leads.flip (h : Leads r n u v) : Leads (flip r) n v u := by
  induction h with
  | here u => exact .here u
  | arc harc _ ih => exact ih.concat harc

theorem leads_flip_iff : Leads (flip r) n v u ↔ Leads r n u v :=
  ⟨Leads.flip, Leads.flip⟩

/-! ## Distances -/

/-- A node is `n` arcs away from another: that many lead to it, and no fewer. -/
def Away (r : α → α → Prop) (n : Nat) (u v : α) : Prop :=
  Leads r n u v ∧ ∀ m < n, ¬ Leads r m u v

theorem Leads.exists_away (h : Leads r n u v) : ∃ m ≤ n, Away r m u v := by
  induction n using Nat.strong_induction_on with
  | h n ih =>
    by_cases hleast : ∀ m < n, ¬ Leads r m u v
    · exact ⟨n, le_rfl, h, hleast⟩
    · push Not at hleast
      obtain ⟨m, hm, hleads⟩ := hleast
      obtain ⟨k, hk, haway⟩ := ih m hm hleads
      exact ⟨k, hk.trans hm.le, haway⟩

theorem Away.le (h : Away r n u v) (hleads : Leads r m u v) : n ≤ m :=
  Nat.le_of_not_lt fun hm => h.2 m hm hleads

theorem Away.eq (h : Away r n u v) (h' : Away r m u v) : n = m :=
  (h.le h'.1).antisymm (h'.le h.1)

theorem away_zero (u : α) : Away r 0 u u :=
  ⟨.here u, fun m hm => absurd hm (Nat.not_lt_zero m)⟩

/-- The nodes one arc further away are those behind the nodes before that cannot be reached with
fewer arcs. -/
theorem away_succ_iff :
    Away r (n + 1) u w ↔ (∃ v, Away r n u v ∧ r v w) ∧ ∀ m ≤ n, ¬ Leads r m u w := by
  constructor
  · rintro ⟨hleads, hleast⟩
    obtain ⟨v, hv, harc⟩ := leads_succ_iff.mp hleads
    refine ⟨⟨v, ⟨hv, fun m hm hvm => ?_⟩, harc⟩, fun m hm => hleast m (Nat.lt_succ_of_le hm)⟩
    exact hleast (m + 1) (Nat.succ_lt_succ hm) (hvm.concat harc)
  · rintro ⟨⟨v, hv, harc⟩, hnew⟩
    exact ⟨hv.1.concat harc, fun m hm => hnew m (Nat.le_of_lt_succ hm)⟩

/-- On the way to a node there is one at every smaller distance. -/
theorem Away.exists_of_le (h : Away r n u v) (hm : m ≤ n) : ∃ w, Away r m u w := by
  induction hm generalizing v with
  | refl => exact ⟨v, h⟩
  | step _ ih =>
    obtain ⟨⟨w, hw, -⟩, -⟩ := away_succ_iff.mp h
    exact ih hw

/-- A node that is `n` arcs away has `n` others before it, no two at the same distance. -/
theorem Away.exists_nodup (h : Away r n u v) :
    ∃ nodes : List α, nodes.length = n + 1 ∧ nodes.Nodup ∧
      ∀ w ∈ nodes, ∃ m ≤ n, Away r m u w := by
  induction n generalizing v with
  | zero => exact ⟨[v], rfl, List.nodup_singleton v, by simpa using h⟩
  | succ n ih =>
    obtain ⟨⟨w, hw, -⟩, -⟩ := away_succ_iff.mp h
    obtain ⟨nodes, hlength, hnodup, hnodes⟩ := ih hw
    have hnew : v ∉ nodes := by
      intro hv
      obtain ⟨m, hm, haway⟩ := hnodes v hv
      exact absurd (h.eq haway) (by omega)
    refine ⟨v :: nodes, by rw [List.length_cons, hlength], List.nodup_cons.mpr ⟨hnew, hnodup⟩, ?_⟩
    rw [List.forall_mem_cons]
    refine ⟨⟨n + 1, le_rfl, h⟩, fun w hw => ?_⟩
    obtain ⟨m, hm, haway⟩ := hnodes w hw
    exact ⟨m, by omega, haway⟩

/-- Where all that can be reached is among some nodes, nothing is further away than their number. -/
theorem Away.lt_length (h : Away r n u v) {nodes : List α}
    (hnodes : ∀ m w, Leads r m u w → w ∈ nodes) : n < nodes.length := by
  obtain ⟨passed, hlength, hnodup, hpassed⟩ := h.exists_nodup
  have hsubset : passed ⊆ nodes := by
    intro w hw
    obtain ⟨m, -, haway⟩ := hpassed w hw
    exact hnodes m w haway.1
  have := (hnodup.subperm hsubset).length_le
  omega

/-! ## Levels -/

/-- A search has gone `n` levels from a node: it has seen what `n` arcs at most lead to, and its
level is what is `n` arcs away. -/
structure Levelled (r : α → α → Prop) (u : α) (n : Nat) (seen : α → Prop) (level : List α) :
    Prop where
  seen_iff : ∀ w, seen w ↔ ∃ m ≤ n, Leads r m u w
  mem_level_iff : ∀ w, w ∈ level ↔ Away r n u w

namespace Levelled

variable {seen seen' : α → Prop} {level next : List α}

theorem start (hseen : ∀ w, seen w ↔ w = u) : Levelled r u 0 seen [u] where
  seen_iff w := by
    simp only [hseen, Nat.le_zero_eq, exists_eq_left, leads_zero_iff, eq_comm]
  mem_level_iff w := by
    rw [List.mem_singleton]
    constructor
    · rintro rfl
      exact away_zero w
    · intro h
      exact (leads_zero_iff.mp h.1).symm

/-- The level after a level has the nodes behind it that were not seen before. -/
theorem succ (h : Levelled r u n seen level)
    (hnext : ∀ w, w ∈ next ↔ (∃ v ∈ level, r v w) ∧ ¬ seen w)
    (hseen : ∀ w, seen' w ↔ seen w ∨ w ∈ next) : Levelled r u (n + 1) seen' next := by
  have haway : ∀ w, w ∈ next ↔ Away r (n + 1) u w := by
    intro w
    simp only [hnext, h.mem_level_iff, h.seen_iff, away_succ_iff, not_exists, not_and]
  refine ⟨fun w => ?_, haway⟩
  rw [hseen, h.seen_iff, haway]
  constructor
  · rintro (⟨m, hm, hleads⟩ | hw)
    · exact ⟨m, Nat.le_succ_of_le hm, hleads⟩
    · exact ⟨n + 1, le_rfl, hw.1⟩
  · rintro ⟨m, hm, hleads⟩
    obtain ⟨k, hk, hw⟩ := hleads.exists_away
    rcases Nat.le_succ_iff.mp (hk.trans hm) with hk | rfl
    · exact .inl ⟨k, hk, hw.1⟩
    · exact .inr hw

/-- Behind an empty level there is nothing. -/
theorem seen_of_leads (h : Levelled r u n seen []) (hleads : Leads r m u w) : seen w := by
  obtain ⟨k, -, hw⟩ := hleads.exists_away
  rcases Nat.lt_or_ge k n with hk | hk
  · exact (h.seen_iff w).mpr ⟨k, hk.le, hw.1⟩
  · obtain ⟨v, hv⟩ := hw.exists_of_le hk
    exact absurd ((h.mem_level_iff v).mpr hv) List.not_mem_nil

end Levelled

/-! ## Paths -/

/-- A list of nodes goes from one of them to another along arcs. -/
inductive IsPath (r : α → α → Prop) : α → α → List α → Prop where
  | here (u : α) : IsPath r u u [u]
  | arc {u v w : α} {path : List α} : r u v → IsPath r v w path → IsPath r u w (u :: path)

namespace IsPath

variable {path rest : List α}

theorem head? (h : IsPath r u v path) : path.head? = some u := by
  cases h <;> rfl

theorem eq_cons (h : IsPath r u v path) : path = u :: path.tail := by
  cases h <;> rfl

theorem length_pos (h : IsPath r u v path) : 0 < path.length := by
  cases h <;> exact Nat.succ_pos _

theorem getLast? (h : IsPath r u v path) : path.getLast? = some v := by
  induction h with
  | here => rfl
  | arc _ h ih => rw [List.getLast?_cons, ih, Option.getD_some]

theorem isChain (h : IsPath r u v path) : path.IsChain r := by
  induction h with
  | here u => exact .singleton u
  | arc harc h ih =>
    rw [h.eq_cons] at ih ⊢
    exact List.isChain_cons_cons.mpr ⟨harc, ih⟩

/-- The number of arcs is one less than that of the nodes. -/
theorem leads (h : IsPath r u v path) : Leads r (path.length - 1) u v := by
  induction h with
  | here u => exact .here u
  | @arc u v w path harc h ih =>
    have hlength : (u :: path).length - 1 = path.length - 1 + 1 := by
      have := h.length_pos
      rw [List.length_cons]
      omega
    rw [hlength]
    exact .arc harc ih

/-- A path can be continued by one that starts where it ends. -/
theorem append (h : IsPath r u v path) (h' : IsPath r v w rest) :
    IsPath r u w (path ++ rest.drop 1) := by
  induction h with
  | here u =>
    have hcons : [u] ++ rest.drop 1 = rest := by
      rw [List.drop_one, List.singleton_append, ← h'.eq_cons]
    rwa [hcons]
  | arc harc _ ih => exact .arc harc (ih h')

theorem reverse (h : IsPath r u v path) : IsPath (flip r) v u path.reverse := by
  induction h with
  | here u => exact .here u
  | @arc u v w path harc _ ih =>
    rw [List.reverse_cons]
    exact ih.append (.arc (r := flip r) harc (.here u))

/-- From every node of a path fewer arcs lead to its end than the path has nodes. -/
theorem exists_leads (h : IsPath r u v path) (hw : w ∈ path) :
    ∃ n < path.length, Leads r n w v := by
  induction h with
  | here u =>
    obtain rfl := List.mem_singleton.mp hw
    exact ⟨0, Nat.one_pos, .here w⟩
  | @arc u v x path harc h ih =>
    rcases List.mem_cons.mp hw with rfl | hw
    · exact ⟨_, Nat.pred_lt (Nat.succ_ne_zero path.length), (IsPath.arc harc h).leads⟩
    · obtain ⟨n, hn, hleads⟩ := ih hw
      exact ⟨n, Nat.lt_succ_of_lt hn, hleads⟩

/-- A path with as few arcs as possible has no node twice: the arcs between them could be left
out. -/
theorem nodup (h : IsPath r u v path) (haway : Away r (path.length - 1) u v) : path.Nodup := by
  induction h with
  | here u => exact List.nodup_singleton u
  | @arc u v w path harc h ih =>
    have hlength := h.length_pos
    rw [List.length_cons, Nat.add_sub_cancel] at haway
    refine List.nodup_cons.mpr ⟨fun hu => ?_, ih ⟨h.leads, fun m hm hleads => ?_⟩⟩
    · obtain ⟨n, hn, hleads⟩ := h.exists_leads hu
      exact haway.2 n hn hleads
    · exact haway.2 (m + 1) (by omega) (.arc harc hleads)

end IsPath

/-- What a search for a path has to answer: one with as few arcs as possible, or nothing where there
is none. -/
def Answers (r : α → α → Prop) (u v : α) : Option (List α) → Prop
  | none => ∀ n, ¬ Leads r n u v
  | some path => IsPath r u v path ∧ Away r (path.length - 1) u v

theorem Answers.eq_none_iff {path? : Option (List α)} (h : Answers r u v path?) :
    path? = none ↔ ∀ n, ¬ Leads r n u v := by
  cases path? with
  | none => exact iff_of_true rfl h
  | some path => exact iff_of_false (Option.some_ne_none path) fun hnone => hnone _ h.1.leads

end EntryFlow.Digraph
