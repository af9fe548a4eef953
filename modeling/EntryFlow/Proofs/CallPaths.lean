import EntryFlow.Proofs.GraphInvariant
import EntryFlow.Proofs.PathSearch
import Mathlib.Order.Bounds.Basic

/-!
# Call paths and reachable signatures

Queries on a call graph search the directed graph of its edges as they are at that time, once from
both ends of a path and once level by level. Both searches measure the same distances: a path is
found exactly where the other signature is listed as reachable, and it has as many calls as the
least depth with which it is listed.

## Main definitions

* `CallGraph.Reaches`: a signature is listed as reached from another one.

## Main statements

* `CallGraph.adj_digraph`, `CallGraph.closed_digraph`: the directed graph of a call graph.
* `CallGraph.levels_int`: how many levels a depth allows.
* `CallGraph.findPath_agrees_with_findReachable`: paths and reachable signatures.
-/

namespace EntryFlow.CallGraph

variable {g : CallGraph} {a b depth : Datum}

/-! ## The directed graph -/

/-- The arcs are the edges. -/
theorem adj_digraph : g.digraph.Adj a b ↔ (a, b) ∈ g.edges := by
  have hnodes := iff_foldl (f := Digraph.addNode) (fun d : Digraph Datum => d.Adj a b)
    (fun _ => False) (fun d v => by simp [Digraph.Adj]) g.nodes.keys .empty
  have hedges := iff_foldl (f := Digraph.addArc) (fun d => d.Adj a b) (· = (a, b))
    (fun _ _ => Digraph.adj_addArc) g.edges (g.nodes.keys.foldl Digraph.addNode .empty)
  rw [digraph, hedges, hnodes]
  simp [Digraph.Adj, Digraph.empty]

theorem closed_digraph (g : CallGraph) : g.digraph.Closed := by
  refine List.foldlRecOn _ _ (List.foldlRecOn _ _ ?_ ?_) ?_
  · intro v w harc
    cases harc
  · exact fun d hd v _ => hd.addNode v
  · exact fun d hd arc _ => hd.addArc arc

/-! ## Depths -/

theorem length_takeWhile_range' {p : Nat → Bool} {limit : Nat} (h : ∀ n, p n ↔ n < limit)
    (start count : Nat) :
    ((List.range' start count).takeWhile p).length = min count (limit - start) := by
  induction count generalizing start with
  | zero => rw [List.range'_zero, List.takeWhile_nil, List.length_nil, Nat.zero_min]
  | succ count ih =>
    rw [List.range'_succ, List.takeWhile_cons]
    split
    · rename_i hstart
      have := (h start).mp hstart
      rw [List.length_cons, ih]
      omega
    · rename_i hstart
      have : ¬ start < limit := fun hlt => hstart ((h start).mpr hlt)
      rw [List.length_nil]
      omega

theorem levels_null (count : Nat) : levels count .null = .ok count := rfl

/-- An integer allows that many levels, as far as there are any. -/
theorem levels_int (count : Nat) (d : Int) : levels count (.int d) = .ok (min count d.toNat) := by
  have hbelow : (List.range count).mapM (fun (n : Nat) => (Datum.int d).compareInt n) =
      .ok ((List.range count).map fun (n : Nat) => some (compare d n)) := by
    rw [mapM_eq_ok_iff, List.forall₂_map_right_iff]
    exact List.forall₂_same.mpr fun _ _ => rfl
  have hgreater : ∀ n : Nat, decide (some (compare d n) = some .gt) ↔ n < d.toNat := by
    intro n
    rw [decide_eq_true_eq, Option.some.injEq, compare_gt_iff_gt]
    omega
  simp only [levels, hbelow, ok_bind]
  rw [List.takeWhile_map, List.length_map, List.range_eq_range']
  exact congrArg Except.ok (length_takeWhile_range' hgreater 0 count)

/-! ## Queries -/

/-- The list of what is reached from a signature is there and has another one. -/
def Reaches (g : CallGraph) (direction : Direction) (depth a b : Datum) : Prop :=
  Gives (g.findReachable a direction depth).1 (b ∈ ·)

namespace Consistent

theorem fst_findReachable (h : g.Consistent) (direction : Direction) :
    (g.findReachable a direction depth).1 =
      if a ∈ g.digraph.nodes then
        (levels g.digraph.nodes.length depth).map fun n =>
          (match direction with
            | .callees => g.digraph
            | .callers => g.digraph.reversed).within n a
      else .ok [] := by
  simp only [findReachable, h.view_eq, digraph_freshView]
  split
  · cases direction <;> rfl
  · rfl

/-- What is listed lies within the levels that the depth allows, in either direction. -/
theorem reaches_iff (h : g.Consistent) {direction : Direction} :
    g.Reaches direction depth a b ↔
      Gives (levels g.digraph.nodes.length depth) fun n =>
        match direction with
        | .callees => b ∈ g.digraph.within n a
        | .callers => a ∈ g.digraph.within n b := by
  have hclosed := closed_digraph g
  by_cases ha : a ∈ g.digraph.nodes
  · rw [Reaches, h.fst_findReachable, if_pos ha, Gives.map_iff]
    cases direction with
    | callees => rfl
    | callers => simp only [hclosed.mem_within_reversed_iff]
  · rw [Reaches, h.fst_findReachable, if_neg ha]
    refine iff_of_false (by simp [Gives]) ?_
    rintro ⟨n, -, hwithin⟩
    cases direction with
    | callees =>
      obtain ⟨hne, k, -, hleads⟩ := Digraph.mem_within_iff.mp hwithin
      exact ha (hclosed.mem_and_mem hleads hne.symm).1
    | callers =>
      obtain ⟨hne, k, -, hleads⟩ := Digraph.mem_within_iff.mp hwithin
      exact ha (hclosed.mem_and_mem hleads hne.symm).2

theorem reaches_null_iff (h : g.Consistent) :
    g.Reaches .callees .null a b ↔ b ≠ a ∧ ∃ n, Digraph.Leads g.digraph.Adj n a b := by
  rw [h.reaches_iff, levels_null, Gives.ok_iff, (closed_digraph g).mem_within_length_iff]

theorem reaches_int_iff (h : g.Consistent) {d : Int} :
    g.Reaches .callees (.int d) a b ↔
      b ≠ a ∧ ∃ n ≤ d.toNat, Digraph.Leads g.digraph.Adj n a b := by
  rw [h.reaches_iff, levels_int, Gives.ok_iff, (closed_digraph g).mem_within_min_iff,
    Digraph.mem_within_iff]

theorem total_findReachable (h : g.Consistent) (direction : Direction)
    (hlevels : Total (levels g.digraph.nodes.length depth)) :
    Total (g.findReachable a direction depth).1 := by
  rw [h.fst_findReachable]
  split
  · exact hlevels.map fun _ _ => trivial
  · exact .ok trivial

theorem answers_findPath (h : g.Consistent) (hne : a ≠ b) :
    Digraph.Answers g.digraph.Adj a b (g.findPath a b).1 := by
  simp only [findPath, h.view_eq]
  exact Digraph.answers_path? (closed_digraph g) hne

/-- A path with as few calls as possible has as many as the least depth that lists its end. -/
theorem isLeast_of_away (h : g.Consistent) (hne : a ≠ b) {n : Nat}
    (haway : Digraph.Away g.digraph.Adj n a b) :
    IsLeast {d : Int | g.Reaches .callees (.int d) a b} n := by
  constructor
  · exact h.reaches_int_iff.mpr ⟨hne.symm, n, le_rfl, haway.1⟩
  · intro d hd
    obtain ⟨-, k, hk, hleads⟩ := h.reaches_int_iff.mp hd
    have hn : n ≤ k := haway.le hleads
    have hpos : k ≠ 0 := by
      rintro rfl
      exact hne (Digraph.leads_zero_iff.mp hleads)
    omega

end Consistent

/-- On every graph that comes about, a path between two different signatures is found exactly where
the one is listed as reachable from the other. The path goes from the one to the other along edges,
has no signature twice, and has as many edges as the least depth with which the other is listed.
With every depth, callees list a signature exactly where callers list it in return, and no signature
is listed for itself. Lists without a depth and with an integer always exist. -/
theorem findPath_agrees_with_findReachable (h : Built g) :
    (∀ a b, a ≠ b →
      ((g.findPath a b).1 = none ↔ ¬ g.Reaches .callees .null a b) ∧
      ∀ path, (g.findPath a b).1 = some path →
        path.head? = some a ∧ path.getLast? = some b ∧ path.Nodup ∧
          path.IsChain (fun u v => (u, v) ∈ g.edges) ∧
          IsLeast {d : Int | g.Reaches .callees (.int d) a b} (path.length - 1)) ∧
      (∀ depth a b, g.Reaches .callees depth a b ↔ g.Reaches .callers depth b a) ∧
      (∀ direction depth a, ¬ g.Reaches direction depth a a) ∧
      ∀ direction a, Total (g.findReachable a direction .null).1 ∧
        ∀ d, Total (g.findReachable a direction (.int d)).1 := by
  have hg := h.consistent
  refine ⟨fun a b hne => ⟨?_, fun path hpath => ?_⟩, fun depth a b => ?_, fun direction depth a => ?_,
    fun direction a => ⟨hg.total_findReachable _ (.ok trivial), fun d => ?_⟩⟩
  · rw [(hg.answers_findPath hne).eq_none_iff, hg.reaches_null_iff, not_and, not_exists]
    exact ⟨fun hnone _ => hnone, fun hnone => hnone hne.symm⟩
  · have hanswers := hg.answers_findPath hne
    rw [hpath] at hanswers
    obtain ⟨hpath, haway⟩ := hanswers
    refine ⟨hpath.head?, hpath.getLast?, hpath.nodup haway, ?_, ?_⟩
    · exact hpath.isChain.imp fun _ _ => adj_digraph.mp
    · have hlength : (path.length : Int) - 1 = (path.length - 1 : Nat) := by
        have := hpath.length_pos
        omega
      rw [hlength]
      exact hg.isLeast_of_away hne haway
  · rw [hg.reaches_iff, hg.reaches_iff]
  · rw [hg.reaches_iff]
    rintro ⟨n, -, hwithin⟩
    cases direction <;> exact (Digraph.mem_within_iff.mp hwithin).1 rfl
  · refine hg.total_findReachable _ ?_
    rw [levels_int]
    exact .ok trivial

/-- The sample with one more call, of a signature that has no node. -/
def extended : CallGraph :=
  (sample.addEdge (.text "buy") (.text "pay") false).1

theorem findPath_agrees_with_findReachable_extended :
    Built extended ∧
      (extended.findPath (.text "take") (.text "pay")).1 =
        some [.text "take", .text "buy", .text "pay"] ∧
      extended.Reaches .callees .null (.text "take") (.text "pay") ∧
      extended.Reaches .callers .null (.text "pay") (.text "take") ∧
      IsLeast {d : Int | extended.Reaches .callees (.int d) (.text "take") (.text "pay")} 2 := by
  have hbuilt : Built extended := .addEdge "buy" "pay" false built_sample
  have hpath : (extended.findPath (.text "take") (.text "pay")).1 =
      some [.text "take", .text "buy", .text "pay"] := by decide
  obtain ⟨hpaths, hmirrored, -⟩ := findPath_agrees_with_findReachable hbuilt
  obtain ⟨hnone, hsome⟩ := hpaths (.text "take") (.text "pay") (by decide)
  have hreaches : extended.Reaches .callees .null (.text "take") (.text "pay") := by
    by_contra hreaches
    rw [hnone.mpr hreaches] at hpath
    cases hpath
  obtain ⟨-, -, -, -, hleast⟩ := hsome _ hpath
  exact ⟨hbuilt, hpath, hreaches, (hmirrored _ _ _).mp hreaches, hleast⟩

end EntryFlow.CallGraph
