import EntryFlow.Digraph.Cycles
import EntryFlow.Proofs.Reachability
import Mathlib.Data.List.Cycle
import Mathlib.Logic.Relation

/-!
# Elementary cycles

The paths that a search follows back to their start are the cycles through it. In a graph whose
nodes are given in some order, every cycle is found once: from the node of it that comes first,
among the nodes from there on. So no order of the nodes loses a cycle or lists one twice, and the
queries that are answered in this way have the documented answers.

## Main definitions

* `Digraph.IsCycle`: the nodes round a cycle, from any of them on.
* `CycleQueries.Documented`: what the documentation of the queries about cycles says.

## Main statements

* `Digraph.mem_closings_iff`: the paths that a search follows back to their start.
* `Digraph.Closed.mem_cyclesFrom_iff`: the cycles listed for a node.
* `Digraph.Closed.countP_cycles`: every cycle is listed once.
* `CycleQueries.documented_byLeastNode`: this way to answer the queries has the documented answers.
* `CycleQueries.Documented.countP_cycles`, `CycleQueries.Documented.isAcyclic_eq_false_iff`: what
  follows from the documented answers alone.
-/

namespace EntryFlow

namespace Digraph

variable {α : Type} {r : α → α → Prop} {u v w : α} {c d rest : List α}

theorem exists_of_isChain (h : (u :: rest).IsChain r) (hw : w ∈ rest) : ∃ v, r v w := by
  induction rest generalizing u with
  | nil => cases hw
  | cons v rest ih =>
    obtain ⟨harc, hchain⟩ := List.isChain_cons_cons.mp h
    rcases List.mem_cons.mp hw with rfl | hw
    · exact ⟨u, harc⟩
    · exact ih hchain hw

/-- The nodes round an elementary cycle: none stands twice, and arcs lead from each to the next and
from the last to the first. -/
def IsCycle (r : α → α → Prop) : List α → Prop
  | [] => False
  | v :: rest => (v :: rest).Nodup ∧ (v :: (rest ++ [v])).IsChain r

namespace IsCycle

theorem nodup (h : IsCycle r c) : c.Nodup := by
  cases c with
  | nil => exact h.elim
  | cons v rest => exact h.1

theorem ne_nil (h : IsCycle r c) : c ≠ [] := by
  rintro rfl
  exact h

/-- From which of its nodes on a cycle is listed does not matter. -/
theorem of_isRotated (h : IsCycle r c) (hd : c.IsRotated d) : IsCycle r d := by
  have heq : (c : Cycle α) = d := Cycle.coe_eq_coe.mpr hd
  cases c with
  | nil => exact h.elim
  | cons v rest =>
    cases d with
    | nil => exact absurd (List.isRotated_nil_iff.mp hd) (List.cons_ne_nil v rest)
    | cons w others =>
      have hchain : Cycle.Chain r (v :: rest : List α) := h.2
      rw [heq] at hchain
      exact ⟨hd.nodup_iff.mp h.1, hchain⟩

/-- Every node has an arc that leads to it. -/
theorem exists_adj (h : IsCycle r c) (hw : w ∈ c) : ∃ u, r u w := by
  cases c with
  | nil => exact h.elim
  | cons v rest => exact exists_of_isChain h.2 (by simpa [or_comm] using hw)

end IsCycle

/-! ## Rotations -/

theorem exists_isRotated_cons (hv : v ∈ c) : ∃ rest, c.IsRotated (v :: rest) := by
  obtain ⟨before, after, rfl⟩ := List.append_of_mem hv
  exact ⟨after ++ before, List.isRotated_append⟩

/-- A list without duplicates is rotated to one list with a given head only. -/
theorem eq_of_isRotated_cons {others : List α} (hnodup : (v :: rest).Nodup)
    (h : (v :: rest).IsRotated (v :: others)) : rest = others := by
  obtain ⟨n, hn⟩ := h
  have hpos : 0 < (v :: rest).length := Nat.succ_pos _
  have hlt : n % (v :: rest).length < (v :: rest).length := Nat.mod_lt n hpos
  have hhead : (v :: rest)[n % (v :: rest).length] = (v :: rest)[0] := by
    have hzero : ((v :: rest).rotate n)[0]? = (v :: others)[0]? := by rw [hn]
    rw [List.getElem?_rotate hpos, Nat.zero_add, List.getElem?_eq_getElem hlt] at hzero
    exact Option.some.inj hzero
  have hmod : n % (v :: rest).length = 0 := (hnodup.getElem_inj_iff).mp hhead
  rw [← List.rotate_mod, hmod, List.rotate_zero] at hn
  exact (List.cons.inj hn).2

/-! ## Chains of arcs -/

theorem exists_leads_of_isChain {between : List α} (h : (u :: (between ++ [w])).IsChain r) :
    ∃ n, Leads r n u w := by
  induction between generalizing u with
  | nil => exact ⟨1, .arc (List.isChain_pair.mp h) (.here w)⟩
  | cons v between ih =>
    obtain ⟨harc, hchain⟩ := List.isChain_cons_cons.mp h
    obtain ⟨n, hleads⟩ := ih hchain
    exact ⟨n + 1, .arc harc hleads⟩

theorem Leads.exists_isPath {n : Nat} (h : Leads r n u v) :
    ∃ path, IsPath r u v path ∧ path.length = n + 1 := by
  induction h with
  | here u => exact ⟨[u], .here u, rfl⟩
  | arc harc _ ih =>
    obtain ⟨path, hpath, hlength⟩ := ih
    exact ⟨_ :: path, .arc harc hpath, by rw [List.length_cons, hlength]⟩

theorem exists_leads_iff : (∃ n, Leads r n u v) ↔ Relation.ReflTransGen r u v := by
  constructor
  · rintro ⟨n, hleads⟩
    induction hleads with
    | here => exact .refl
    | arc harc _ ih => exact .head harc ih
  · intro h
    induction h with
    | refl => exact ⟨0, .here u⟩
    | tail _ harc ih =>
      obtain ⟨n, hleads⟩ := ih
      exact ⟨n + 1, hleads.concat harc⟩

/-- There is a cycle where an arc leads to a node from which others lead back. -/
theorem exists_isCycle_iff : (∃ c, IsCycle r c) ↔ ∃ v w n, r v w ∧ Leads r n w v := by
  constructor
  · rintro ⟨_ | ⟨v, rest⟩, hc⟩
    · exact hc.elim
    · obtain ⟨n, hleads⟩ := exists_leads_of_isChain hc.2
      cases hleads with
      | here =>
        cases rest with
        | nil => exact ⟨v, v, 0, List.isChain_pair.mp hc.2, .here v⟩
        | cons w rest =>
          obtain ⟨harc, hchain⟩ := List.isChain_cons_cons.mp hc.2
          obtain ⟨n, hleads⟩ := exists_leads_of_isChain hchain
          exact ⟨v, w, n, harc, hleads⟩
      | arc harc hleads => exact ⟨v, _, _, harc, hleads⟩
  · rintro ⟨v, w, n, harc, hleads⟩
    obtain ⟨m, -, haway⟩ := hleads.exists_away
    obtain ⟨path, hpath, hlength⟩ := haway.1.exists_isPath
    have hnodup : path.Nodup := hpath.nodup (by rwa [hlength, Nat.add_sub_cancel])
    have hround : IsPath r w w (path ++ [w]) := hpath.append (.arc harc (.here w))
    refine ⟨path, ?_⟩
    rw [hpath.eq_cons] at hnodup hround ⊢
    exact ⟨hnodup, hround.isChain⟩

/-- There is a cycle where arcs lead from a node back to it. -/
theorem exists_isCycle_iff_exists_transGen : (∃ c, IsCycle r c) ↔ ∃ v, Relation.TransGen r v v := by
  simp only [exists_isCycle_iff, Relation.TransGen.head'_iff, ← exists_leads_iff, exists_and_left]

variable [DecidableEq α]

/-! ## The search -/

/-- The search lists the ways to go on with a path, without meeting it or themselves, that have an
arc back to its start at their end. -/
theorem mem_closings_iff {next : α → List α} {start last : α} {fuel : Nat} {path : List α}
    (hstart : start ∈ path) (hpath : path.Nodup) :
    c ∈ closings next start fuel path last ↔
      ∃ rest, c = path.reverse ++ rest ∧ c.Nodup ∧ rest.length < fuel ∧
        (last :: (rest ++ [start])).IsChain fun u w => w ∈ next u := by
  induction fuel generalizing path last with
  | zero => simp [closings]
  | succ fuel ih =>
    rw [closings, List.mem_flatMap]
    constructor
    · rintro ⟨w, hnext, hc⟩
      split at hc
      · rename_i hw
        obtain rfl := List.mem_singleton.mp hc
        refine ⟨[], (List.append_nil _).symm, List.nodup_reverse.mpr hpath, Nat.succ_pos _, ?_⟩
        exact List.isChain_pair.mpr (hw ▸ hnext)
      · split at hc
        · cases hc
        · rename_i hw hnew
          obtain ⟨rest, rfl, hnodup, hlength, hchain⟩ :=
            (ih (List.mem_cons_of_mem w hstart) (List.nodup_cons.mpr ⟨hnew, hpath⟩)).mp hc
          refine ⟨w :: rest, by simp, hnodup, Nat.succ_lt_succ hlength, ?_⟩
          exact List.isChain_cons_cons.mpr ⟨hnext, hchain⟩
    · rintro ⟨rest, rfl, hnodup, hlength, hchain⟩
      cases rest with
      | nil =>
        refine ⟨start, List.isChain_pair.mp hchain, ?_⟩
        simp
      | cons w rest =>
        obtain ⟨hnext, hchain⟩ := List.isChain_cons_cons.mp hchain
        have hnew : w ∉ path := by
          intro hw
          exact (List.nodup_append.mp hnodup).2.2 w (List.mem_reverse.mpr hw) w
            List.mem_cons_self rfl
        have hne : w ≠ start := fun hw => hnew (hw ▸ hstart)
        refine ⟨w, hnext, ?_⟩
        rw [if_neg hne, if_neg hnew,
          ih (List.mem_cons_of_mem w hstart) (List.nodup_cons.mpr ⟨hnew, hpath⟩)]
        exact ⟨rest, by simp, hnodup, Nat.lt_of_succ_lt_succ hlength, hchain⟩

/-- Where no node is offered twice, no way back is found twice: two ways differ in the node that
comes after the path, or one of them ends there. -/
theorem nodup_closings {next : α → List α} {start last : α} {fuel : Nat} {path : List α}
    (hnext : ∀ u, (next u).Nodup) (hstart : start ∈ path) (hpath : path.Nodup) :
    (closings next start fuel path last).Nodup := by
  induction fuel generalizing path last with
  | zero => exact List.nodup_nil
  | succ fuel ih =>
    rw [closings, List.nodup_flatMap]
    constructor
    · intro w _
      split
      · exact List.nodup_singleton _
      · split
        · exact List.nodup_nil
        · rename_i hnew
          exact ih (List.mem_cons_of_mem w hstart) (List.nodup_cons.mpr ⟨hnew, hpath⟩)
    · have hafter : ∀ w, ∀ listed ∈ (if w = start then [path.reverse] else if w ∈ path then []
          else closings next start fuel (w :: path) w),
          listed[path.length]? = if w = start then none else some w := by
        intro w listed hc
        split at hc
        · rename_i hw
          rw [List.mem_singleton.mp hc, if_pos hw]
          simp
        · split at hc
          · cases hc
          · rename_i hw hnew
            obtain ⟨rest, rfl, -⟩ :=
              (mem_closings_iff (List.mem_cons_of_mem w hstart)
                (List.nodup_cons.mpr ⟨hnew, hpath⟩)).mp hc
            rw [if_neg hw]
            simp
      refine (hnext last).imp fun {w x} hne c hw hx => ?_
      have hheads := (hafter w c hw).symm.trans (hafter x c hx)
      grind

/-! ## Cycles from a node on -/

variable {g : Digraph α} {nodes vs : List α} {le : α → α → Bool}

theorem adj_induced {keep : List α} :
    (g.induced keep).Adj v w ↔ g.Adj v w ∧ v ∈ keep ∧ w ∈ keep := by
  simp [Adj, induced]

theorem Closed.induced (h : g.Closed) (keep : List α) : (g.induced keep).Closed := by
  intro v w harc
  obtain ⟨harc, hv, hw⟩ := adj_induced.mp harc
  obtain ⟨hv', hw'⟩ := h v w harc
  simp [Digraph.induced, hv, hw, hv', hw']

/-- The nodes that are reached from a node and lead back to it, and the node itself. -/
def region (g : Digraph α) (nodes : List α) (v : α) : List α :=
  nodes.filter fun w => w = v ||
    (w ∈ (g.induced nodes).reachable v && w ∈ (g.induced nodes).reversed.reachable v)

theorem cyclesFrom_eq (g : Digraph α) (nodes : List α) (v : α) :
    g.cyclesFrom nodes v =
      closings (fun u => (g.region nodes v).filter fun w => w ∈ g.successors u) v
        (g.region nodes v).length [v] v := rfl

theorem Closed.mem_region_iff (h : g.Closed) :
    w ∈ g.region nodes v ↔ w ∈ nodes ∧ (w = v ∨
      (∃ n, Leads (g.induced nodes).Adj n v w) ∧ ∃ n, Leads (g.induced nodes).Adj n w v) := by
  have habove : w ∈ (g.induced nodes).reachable v ↔
      w ≠ v ∧ ∃ n, Leads (g.induced nodes).Adj n v w :=
    (h.induced nodes).mem_within_length_iff
  have hback : w ∈ (g.induced nodes).reversed.reachable v ↔
      v ≠ w ∧ ∃ n, Leads (g.induced nodes).Adj n w v := by
    rw [reachable, (h.induced nodes).mem_within_reversed_iff, nodes_reversed]
    exact (h.induced nodes).mem_within_length_iff
  simp only [region, List.mem_filter, Bool.or_eq_true, Bool.and_eq_true, decide_eq_true_eq, habove,
    hback]
  grind

/-- A cycle among some nodes lies in the region of each of its nodes. -/
theorem Closed.mem_region_of_isCycle (h : g.Closed) (hc : IsCycle g.Adj (v :: rest))
    (hnodes : v :: rest ⊆ nodes) (hw : w ∈ v :: rest) : w ∈ g.region nodes v := by
  rw [h.mem_region_iff]
  refine ⟨hnodes hw, ?_⟩
  rcases List.mem_cons.mp hw with rfl | hw
  · exact .inl rfl
  · have hinside : (v :: (rest ++ [v])).IsChain (g.induced nodes).Adj := by
      refine hc.2.imp_of_mem_imp fun u w hu hw harc => adj_induced.mpr ⟨harc, ?_, ?_⟩
      · exact hnodes (by simpa [or_comm] using hu)
      · exact hnodes (by simpa [or_comm] using hw)
    obtain ⟨before, after, rfl⟩ := List.append_of_mem hw
    rw [List.append_assoc, List.cons_append, ← List.cons_append, List.isChain_split] at hinside
    exact .inr ⟨exists_leads_of_isChain hinside.1, exists_leads_of_isChain hinside.2⟩

/-- For a node the cycles through it are listed that pass no other nodes than the given ones, each
from that node on. -/
theorem Closed.mem_cyclesFrom_iff (h : g.Closed) :
    c ∈ g.cyclesFrom nodes v ↔ c.head? = some v ∧ IsCycle g.Adj c ∧ c ⊆ nodes := by
  rw [cyclesFrom_eq, mem_closings_iff List.mem_cons_self (List.nodup_singleton v)]
  simp only [List.mem_filter, decide_eq_true_eq, mem_successors_iff]
  constructor
  · rintro ⟨rest, rfl, hnodup, -, hchain⟩
    refine ⟨rfl, ⟨hnodup, hchain.imp fun _ _ hnext => hnext.2⟩, ?_⟩
    intro w hw
    obtain ⟨u, hregion, -⟩ := exists_of_isChain hchain (w := w) (by simpa [or_comm] using hw)
    exact (h.mem_region_iff.mp hregion).1
  · rintro ⟨hhead, hc, hsub⟩
    obtain ⟨rest, rfl⟩ : ∃ rest, c = v :: rest := by
      cases c with
      | nil => cases hhead
      | cons w rest => exact ⟨rest, by rw [Option.some.inj hhead]⟩
    have hregion : v :: rest ⊆ g.region nodes v := fun w => h.mem_region_of_isCycle hc hsub
    refine ⟨rest, rfl, hc.1, (hc.1.subperm hregion).length_le, ?_⟩
    refine hc.2.imp_of_mem_imp fun u w _ hw harc => ⟨hregion ?_, harc⟩
    simpa [or_comm] using hw

theorem nodup_cyclesFrom (hnodes : nodes.Nodup) : (g.cyclesFrom nodes v).Nodup := by
  rw [cyclesFrom_eq]
  apply nodup_closings
  · intro u
    exact (hnodes.filter _).filter _
  · exact List.mem_cons_self
  · exact List.nodup_singleton v

/-! ## All cycles -/

theorem Closed.isCycle_of_mem_cyclesOn (h : g.Closed) (hc : c ∈ g.cyclesOn nodes) :
    IsCycle g.Adj c ∧ c ⊆ nodes := by
  induction nodes with
  | nil => cases hc
  | cons v vs ih =>
    rcases List.mem_append.mp hc with hc | hc
    · exact (h.mem_cyclesFrom_iff.mp hc).2
    · obtain ⟨hcycle, hsub⟩ := ih hc
      exact ⟨hcycle, List.subset_cons_of_subset v hsub⟩

/-- Of the cycles from a node on, a cycle through that node is one rotation only. -/
theorem Closed.countP_cyclesFrom (h : g.Closed) (hnodes : nodes.Nodup) (hc : IsCycle g.Adj c)
    (hsub : c ⊆ nodes) (hv : v ∈ c) :
    (g.cyclesFrom nodes v).countP (fun d => d.IsRotated c) = 1 := by
  obtain ⟨rest, hrotated⟩ := exists_isRotated_cons hv
  have hrest : IsCycle g.Adj (v :: rest) := hc.of_isRotated hrotated
  have honly : ∀ d ∈ g.cyclesFrom nodes v, d.IsRotated c ↔ d = v :: rest := by
    intro d hd
    obtain ⟨hhead, hcycle, -⟩ := h.mem_cyclesFrom_iff.mp hd
    constructor
    · intro hdc
      cases d with
      | nil => cases hhead
      | cons w others =>
        obtain rfl := Option.some.inj hhead
        rw [eq_of_isRotated_cons hcycle.nodup (hdc.trans hrotated)]
    · rintro rfl
      exact hrotated.symm
  have hmem : v :: rest ∈ g.cyclesFrom nodes v := by
    rw [h.mem_cyclesFrom_iff]
    exact ⟨rfl, hrest, fun w hw => hsub (hrotated.mem_iff.mpr hw)⟩
  calc
    (g.cyclesFrom nodes v).countP (fun d => d.IsRotated c)
      = (g.cyclesFrom nodes v).countP (· = v :: rest) := by
        refine List.countP_congr fun d hd => ?_
        simpa using honly d hd
    _ = (g.cyclesFrom nodes v).count (v :: rest) := by
        simp only [List.count, beq_eq_decide]
    _ = 1 := List.count_eq_one_of_mem (nodup_cyclesFrom hnodes) hmem

/-- A cycle among nodes without duplicates is listed for that of its nodes which comes first. -/
theorem Closed.countP_cyclesOn (h : g.Closed) (hnodes : nodes.Nodup) (hc : IsCycle g.Adj c)
    (hsub : c ⊆ nodes) : (g.cyclesOn nodes).countP (fun d => d.IsRotated c) = 1 := by
  induction nodes with
  | nil => exact absurd (List.subset_nil.mp hsub) hc.ne_nil
  | cons v vs ih =>
    obtain ⟨hv, hvs⟩ := List.nodup_cons.mp hnodes
    rw [cyclesOn, List.countP_append]
    by_cases hmem : v ∈ c
    · have hlater : (g.cyclesOn vs).countP (fun d => d.IsRotated c) = 0 := by
        rw [List.countP_eq_zero]
        intro d hd hdc
        have hdc : d.IsRotated c := by simpa using hdc
        exact hv ((h.isCycle_of_mem_cyclesOn hd).2 (hdc.mem_iff.mpr hmem))
      rw [h.countP_cyclesFrom hnodes hc hsub hmem, hlater]
    · have hfirst : (g.cyclesFrom (v :: vs) v).countP (fun d => d.IsRotated c) = 0 := by
        rw [List.countP_eq_zero]
        intro d hd hdc
        have hdc : d.IsRotated c := by simpa using hdc
        have hhead := (h.mem_cyclesFrom_iff.mp hd).1
        exact hmem (hdc.mem_iff.mp (List.mem_of_head? hhead))
      have hrest : c ⊆ vs := by
        intro w hw
        refine (List.mem_cons.mp (hsub hw)).resolve_left ?_
        rintro rfl
        exact hmem hw
      rw [hfirst, ih hvs hrest]

/-- Every list is a cycle. -/
theorem Closed.isCycle_of_mem_cycles (h : g.Closed) (hc : c ∈ g.cycles le) : IsCycle g.Adj c :=
  (h.isCycle_of_mem_cyclesOn hc).1

/-- Every cycle is listed once, from one of its nodes on. -/
theorem Closed.countP_cycles (h : g.Closed) (hnodes : g.nodes.Nodup) (hc : IsCycle g.Adj c) :
    (g.cycles le).countP (fun d => d.IsRotated c) = 1 := by
  have hperm : (g.nodes.mergeSort le).Perm g.nodes := List.mergeSort_perm _ _
  refine h.countP_cyclesOn (hperm.nodup_iff.mpr hnodes) hc fun w hw => ?_
  obtain ⟨u, harc⟩ := hc.exists_adj hw
  exact hperm.mem_iff.mpr (h u w harc).2

/-- There is a cycle where an arc leads to its own node or to one that leads back. -/
theorem Closed.exists_isCycle_iff (h : g.Closed) :
    (∃ c, IsCycle g.Adj c) ↔ ∃ v w, g.Adj v w ∧ (w = v ∨ v ∈ g.reachable w) := by
  rw [Digraph.exists_isCycle_iff]
  refine exists₂_congr fun v w => ?_
  rw [exists_and_left, reachable, h.mem_within_length_iff]
  refine and_congr_right fun _ => ?_
  rcases eq_or_ne v w with rfl | hne
  · exact iff_of_true ⟨0, .here v⟩ (.inl rfl)
  · simp [hne, hne.symm]

/-- The test finds such an arc. -/
theorem Closed.hasCycle_iff (h : g.Closed) : g.hasCycle = true ↔ ∃ c, IsCycle g.Adj c := by
  rw [h.exists_isCycle_iff]
  simp only [hasCycle, List.any_eq_true, mem_successors_iff, Bool.or_eq_true, decide_eq_true_eq]
  constructor
  · rintro ⟨v, -, w, harc, hback⟩
    exact ⟨v, w, harc, hback⟩
  · rintro ⟨v, w, harc, hback⟩
    exact ⟨v, (h v w harc).1, w, harc, hback⟩

end Digraph

open Digraph

/-! ## The documentation of the queries -/

section Rotations

variable {α : Type} [DecidableEq α] {cycles : List (List α)} {c d : List α}

/-- Where each listed cycle is listed once, no two are rotations of each other. -/
theorem pairwise_of_countP_eq_one
    (h : ∀ c ∈ cycles, cycles.countP (fun d => d.IsRotated c) = 1) :
    cycles.Pairwise fun c d => ¬ d.IsRotated c := by
  induction cycles with
  | nil => exact .nil
  | cons c cycles ih =>
    have hhead := h c List.mem_cons_self
    rw [List.countP_cons_of_pos (by simp [List.IsRotated.refl])] at hhead
    have hnone : ∀ d ∈ cycles, ¬ d.IsRotated c := by
      simpa using List.countP_eq_zero.mp (Nat.succ.inj hhead)
    refine .cons hnone (ih fun d hd => ?_)
    have hother := h d (List.mem_cons_of_mem c hd)
    rwa [List.countP_cons_of_neg (by simpa using fun hcd => hnone d hd hcd.symm)] at hother

/-- Where no two are rotations of each other, a cycle that is listed from some node on is listed
once. -/
theorem countP_eq_one_of_pairwise (h : cycles.Pairwise fun c d => ¬ d.IsRotated c)
    (hd : d ∈ cycles) (hdc : d.IsRotated c) :
    cycles.countP (fun other => other.IsRotated c) = 1 := by
  induction cycles with
  | nil => cases hd
  | cons first cycles ih =>
    obtain ⟨hfirst, hrest⟩ := List.pairwise_cons.mp h
    rcases List.mem_cons.mp hd with rfl | hd
    · have hnone : cycles.countP (fun other => other.IsRotated c) = 0 := by
        rw [List.countP_eq_zero]
        intro other hother hrotated
        exact hfirst other hother ((of_decide_eq_true hrotated).trans hdc.symm)
      rw [List.countP_cons_of_pos (by simpa using hdc), hnone]
    · rw [List.countP_cons_of_neg (by
        simpa using fun hrotated => hfirst d hd (hdc.trans hrotated.symm)), ih hrest hd]

end Rotations

namespace CycleQueries

variable {α : Type} [DecidableEq α] {queries : CycleQueries α} {g : Digraph α} {c : List α}

/-- What the documentation says about the queries on graphs whose arcs lie between their nodes. A
graph is acyclic if it has no directed cycle, so that no arcs lead from a node back to it. The list
of cycles has the elementary ones, all of them and nothing else, and two cycles of it are not
rotations of each other. -/
structure Documented (queries : CycleQueries α) : Prop where
  isAcyclic_iff : ∀ g : Digraph α, g.Closed → g.nodes.Nodup →
    (queries.isAcyclic g = true ↔ ∀ v, ¬ Relation.TransGen g.Adj v v)
  isCycle_of_mem : ∀ g : Digraph α, g.Closed → g.nodes.Nodup →
    ∀ c ∈ queries.cycles g, IsCycle g.Adj c
  exists_isRotated : ∀ g : Digraph α, g.Closed → g.nodes.Nodup →
    ∀ c, IsCycle g.Adj c → ∃ d ∈ queries.cycles g, d.IsRotated c
  apart : ∀ g : Digraph α, g.Closed → g.nodes.Nodup →
    (queries.cycles g).Pairwise fun c d => ¬ d.IsRotated c

/-- The queries with each cycle listed from its least node on have the documented answers. -/
theorem documented_byLeastNode (le : α → α → Bool) : (byLeastNode le).Documented where
  isAcyclic_iff g h _ := by
    have hcyclic := h.hasCycle_iff
    rw [exists_isCycle_iff_exists_transGen] at hcyclic
    rw [byLeastNode, Bool.not_eq_true', ← Bool.not_eq_true, hcyclic, not_exists]
  isCycle_of_mem g h _ c hc := h.isCycle_of_mem_cycles hc
  exists_isRotated g h hnodes c hc := by
    have hlisted : 0 < (g.cycles le).countP (fun d => d.IsRotated c) := by
      rw [h.countP_cycles hnodes hc]
      exact Nat.one_pos
    obtain ⟨d, hd, hdc⟩ := List.countP_pos_iff.mp hlisted
    exact ⟨d, hd, of_decide_eq_true hdc⟩
  apart g h hnodes := pairwise_of_countP_eq_one fun c hc =>
    h.countP_cycles hnodes (h.isCycle_of_mem_cycles hc)

namespace Documented

variable (hq : queries.Documented) (h : g.Closed) (hnodes : g.nodes.Nodup)
include hq h hnodes

/-- Every cycle is listed once, from one of its nodes on. -/
theorem countP_cycles (hc : IsCycle g.Adj c) :
    (queries.cycles g).countP (fun d => d.IsRotated c) = 1 := by
  obtain ⟨d, hd, hdc⟩ := hq.exists_isRotated g h hnodes c hc
  exact countP_eq_one_of_pairwise (hq.apart g h hnodes) hd hdc

omit [DecidableEq α] in
theorem cycles_ne_nil_iff : queries.cycles g ≠ [] ↔ ∃ c, IsCycle g.Adj c := by
  constructor
  · intro hne
    obtain ⟨c, hc⟩ := List.exists_mem_of_ne_nil _ hne
    exact ⟨c, hq.isCycle_of_mem g h hnodes c hc⟩
  · rintro ⟨c, hc⟩ hnil
    obtain ⟨d, hd, -⟩ := hq.exists_isRotated g h hnodes c hc
    rw [hnil] at hd
    cases hd

omit [DecidableEq α] in
theorem isAcyclic_eq_false_iff : queries.isAcyclic g = false ↔ ∃ c, IsCycle g.Adj c := by
  rw [exists_isCycle_iff_exists_transGen, ← Bool.not_eq_true, hq.isAcyclic_iff g h hnodes,
    not_forall_not]

end Documented

end CycleQueries

end EntryFlow
