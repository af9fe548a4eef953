import EntryFlow.Proofs.Reachability

/-!
# The search from both ends

A path between two nodes is searched for from both of them at once, level by level, along the arcs
from the one and against them from the other. As long as the ends have not met, what each of them
has come to is exactly what its levels reach. So the node at which they meet lies on a path that has
as few arcs as any, and an end that has nowhere to go shows that there is none.

## Main definitions

* `Digraph.End.Followed`: what an end has come to after it followed some arcs.
* `Digraph.End.Swept`: an end that has gone some levels.
* `Digraph.End.Retraces`: an end that knows its way back from a node.
* `Digraph.Facing`: two ends that have not met.

## Main statements

* `Digraph.End.Swept.sweep_none`, `Digraph.End.Swept.sweep_some`: what a sweep does.
* `Digraph.End.Retraces.join`: the path through a node at which two ends meet.
* `Digraph.Facing.answers_join`, `Digraph.Facing.answers_none`: why it has as few arcs as any, and
  when there is none.
* `Digraph.answers_path?`: what the search answers.
-/

namespace EntryFlow.Digraph

variable {α : Type} {r : α → α → Prop} {u v w : α} {m n : Nat}

/-- The arcs that leave a level. -/
theorem mem_arcs_iff {next : α → List α} (hnext : ∀ v w, w ∈ next v ↔ r v w) {level : List α}
    {arc : α × α} :
    arc ∈ (level.flatMap fun v => (next v).map fun w => (v, w)) ↔
      arc.1 ∈ level ∧ r arc.1 arc.2 := by
  simp only [List.mem_flatMap, List.mem_map, hnext]
  constructor
  · rintro ⟨v, hv, w, hvw, rfl⟩
    exact ⟨hv, hvw⟩
  · rintro ⟨hv, hvw⟩
    exact ⟨arc.1, hv, arc.2, hvw, rfl⟩

variable [DecidableEq α]

namespace End

variable {e e' other : End α} {arc : α × α} {arcs done : List (α × α)} {next : α → List α}

theorem knows_iff : e.knows v ↔ v = e.start ∨ ∃ link ∈ e.links, link.1 = v := by
  simp [knows]

theorem knows_start (e : End α) : e.knows e.start :=
  knows_iff.mpr (.inl rfl)

/-! ## Following arcs -/

/-- What an end has come to after it followed some arcs: their heads, each with the tail of an arc
that leads there, as far as they are new. The new ones are those to go on from. -/
structure Followed (e e' : End α) (arcs : List (α × α)) : Prop where
  start_eq : e'.start = e.start
  knows_iff : ∀ w, e'.knows w ↔ e.knows w ∨ ∃ arc ∈ arcs, arc.2 = w
  mem_fringe_iff : ∀ w, w ∈ e'.fringe ↔ ¬ e.knows w ∧ ∃ arc ∈ arcs, arc.2 = w
  of_mem_links : ∀ link ∈ e'.links, link ∈ e.links ∨ ¬ e.knows link.1 ∧ (link.2, link.1) ∈ arcs
  length_links : e'.links.length = e.links.length + e'.fringe.length

namespace Followed

theorem nil (e : End α) : e.Followed { e with fringe := [] } [] := by
  constructor <;> simp [knows]

theorem follow (h : e.Followed e' arcs) (arc : α × α) :
    e.Followed (e'.follow arc) (arcs ++ [arc]) := by
  have hor : ∀ w, (∃ a ∈ arcs ++ [arc], a.2 = w) ↔ (∃ a ∈ arcs, a.2 = w) ∨ arc.2 = w := by
    simp [or_and_right, exists_or]
  have hlinks : ∀ link ∈ e'.links,
      link ∈ e.links ∨ ¬ e.knows link.1 ∧ (link.2, link.1) ∈ arcs ++ [arc] := fun link hlink =>
    (h.of_mem_links link hlink).imp_right fun ⟨hnew, hmem⟩ => ⟨hnew, List.mem_append_left _ hmem⟩
  by_cases hold : e'.knows arc.2
  · rw [End.follow, if_pos hold]
    have hold := (h.knows_iff arc.2).mp hold
    refine ⟨h.start_eq, fun w => ?_, fun w => ?_, hlinks, h.length_links⟩
    · rw [h.knows_iff, hor]
      grind
    · rw [h.mem_fringe_iff, hor]
      grind
  · rw [End.follow, if_neg hold]
    have hnew : ¬ e.knows arc.2 := fun hknows => hold ((h.knows_iff _).mpr (.inl hknows))
    refine ⟨h.start_eq, fun w => ?_, fun w => ?_, fun link hlink => ?_, ?_⟩
    · rw [hor, ← or_assoc, ← h.knows_iff]
      simp [End.knows, or_assoc]
    · rw [List.mem_append, h.mem_fringe_iff, hor, List.mem_singleton]
      grind
    · rcases List.mem_append.mp hlink with hlink | hlink
      · exact hlinks link hlink
      · obtain rfl := List.mem_singleton.mp hlink
        exact .inr ⟨hnew, List.mem_append_right _ List.mem_cons_self⟩
    · simp only [List.length_append, List.length_singleton, h.length_links]
      omega

end Followed

/-- An end that does not meet the other one follows all arcs. -/
theorem followed_of_followAll_none {e₀ : End α} (h : e₀.Followed e done)
    (hrun : followAll other e arcs = (e', none)) :
    e₀.Followed e' (done ++ arcs) ∧ ∀ arc ∈ arcs, ¬ other.knows arc.2 := by
  induction arcs generalizing e done with
  | nil =>
    cases hrun
    exact ⟨by rwa [List.append_nil], fun _ harc => absurd harc List.not_mem_nil⟩
  | cons arc arcs ih =>
    rw [followAll] at hrun
    split at hrun
    · cases hrun
    · rename_i hmeets
      obtain ⟨hfollowed, harcs⟩ := ih (h.follow arc) hrun
      rw [List.append_assoc, List.singleton_append] at hfollowed
      exact ⟨hfollowed, List.forall_mem_cons.mpr ⟨hmeets, harcs⟩⟩

/-- An end that meets the other one has followed some of the arcs, the last of them to a node that
the other one has come to. -/
theorem followed_of_followAll_some {e₀ : End α} (h : e₀.Followed e done)
    (hrun : followAll other e arcs = (e', some v)) :
    ∃ taken ⊆ arcs, e₀.Followed e' (done ++ taken) ∧ (∃ arc ∈ taken, arc.2 = v) ∧
      other.knows v := by
  induction arcs generalizing e done with
  | nil => cases hrun
  | cons arc arcs ih =>
    rw [followAll] at hrun
    split at hrun
    · rename_i hmeets
      cases hrun
      exact ⟨[arc], by simp, h.follow arc, ⟨arc, List.mem_cons_self, rfl⟩, hmeets⟩
    · obtain ⟨taken, hsubset, hfollowed, ⟨last, hlast, rfl⟩, hmeets⟩ := ih (h.follow arc) hrun
      rw [List.append_assoc, List.singleton_append] at hfollowed
      exact ⟨arc :: taken, List.cons_subset_cons _ hsubset, hfollowed,
        ⟨last, List.mem_cons_of_mem _ hlast, rfl⟩, hmeets⟩

/-! ## Ways back -/

/-- Every link leads back along an arc to a known node that is one arc nearer to the start. -/
def Linked (r : α → α → Prop) (e : End α) : Prop :=
  ∀ link ∈ e.links, r link.2 link.1 ∧ e.knows link.2 ∧
    ∃ n, Away r n e.start link.2 ∧ Away r (n + 1) e.start link.1

/-- An end knows a node that is `n` arcs away, and its way back from there. -/
structure Retraces (r : α → α → Prop) (e : End α) (n : Nat) (v : α) : Prop where
  linked : e.Linked r
  knows : e.knows v
  away : Away r n e.start v
  le : n ≤ e.links.length

theorem find?_links_eq_none (h : e.Linked r) :
    (e.links.find? fun link => link.1 = e.start) = none := by
  rw [List.find?_eq_none]
  intro link hlink
  rw [decide_eq_true_eq]
  intro hstart
  obtain ⟨-, -, n, -, haway⟩ := h link hlink
  rw [hstart] at haway
  exact absurd (haway.eq (away_zero _)) (Nat.succ_ne_zero n)

/-- From a node that is `n` arcs away the links lead back to the start over `n` arcs. -/
theorem isPath_trail (h : e.Linked r) (hknows : e.knows v) (haway : Away r n e.start v)
    {fuel : Nat} (hfuel : n ≤ fuel) :
    IsPath (flip r) v e.start (e.trail fuel v) ∧ (e.trail fuel v).length = n + 1 := by
  induction n generalizing v fuel with
  | zero =>
    obtain rfl := leads_zero_iff.mp haway.1
    have htrail : e.trail fuel e.start = [e.start] := by
      cases fuel with
      | zero => rfl
      | succ fuel => rw [trail, find?_links_eq_none h]
    rw [htrail]
    exact ⟨.here _, rfl⟩
  | succ n ih =>
    obtain ⟨fuel, rfl⟩ := Nat.exists_eq_add_of_le' (Nat.one_le_of_lt hfuel)
    have hfound : ∃ link, (e.links.find? fun link => link.1 = v) = some link := by
      rw [← Option.isSome_iff_exists, List.find?_isSome]
      rcases knows_iff.mp hknows with rfl | ⟨link, hlink, rfl⟩
      · exact absurd (haway.eq (away_zero _)) (Nat.succ_ne_zero n)
      · exact ⟨link, hlink, decide_eq_true rfl⟩
    obtain ⟨link, hfound⟩ := hfound
    obtain rfl : link.1 = v := of_decide_eq_true (List.find?_some hfound :)
    obtain ⟨harc, hback, k, hnear, hfar⟩ := h link (List.mem_of_find?_eq_some hfound)
    obtain rfl : n = k := Nat.succ.inj (haway.eq hfar)
    obtain ⟨hpath, hlength⟩ := ih hback hnear (Nat.le_of_succ_le_succ hfuel)
    rw [trail, hfound]
    exact ⟨.arc (r := flip r) harc hpath, congrArg Nat.succ hlength⟩

/-- Through a node at which two ends meet there is a path over the arcs that both have gone. -/
theorem Retraces.join {front back : End α} (hfront : front.Retraces r m v)
    (hback : back.Retraces (flip r) n v) :
    IsPath r front.start back.start (front.join back v) ∧
      (front.join back v).length = m + n + 1 := by
  obtain ⟨hforth, hforthLength⟩ := isPath_trail hfront.linked hfront.knows hfront.away hfront.le
  obtain ⟨hbackward, hbackwardLength⟩ :=
    isPath_trail hback.linked hback.knows hback.away hback.le
  refine ⟨hforth.reverse.append hbackward, ?_⟩
  rw [End.join, List.length_append, List.length_reverse, List.length_drop, hforthLength,
    hbackwardLength]
  omega

/-! ## Sweeps -/

/-- An end has gone `n` levels and can go on from the last of them. -/
structure Swept (r : α → α → Prop) (e : End α) (n : Nat) : Prop where
  levelled : Levelled r e.start n (e.knows ·) e.fringe
  linked : e.Linked r
  length_links : e.fringe ≠ [] → n ≤ e.links.length

namespace Swept

theorem start (r : α → α → Prop) (u : α) : Swept r ⟨u, [], [u]⟩ 0 where
  levelled := .start fun w => by simp [knows]
  linked := fun _ hlink => absurd hlink List.not_mem_nil
  length_links := fun _ => Nat.zero_le _

/-- An end knows its way back from all that it has come to. -/
theorem exists_retraces (h : e.Swept r n) (hfringe : e.fringe ≠ []) (hv : e.knows v) :
    ∃ m ≤ n, e.Retraces r m v := by
  obtain ⟨m, hm, hleads⟩ := (h.levelled.seen_iff v).mp hv
  obtain ⟨k, hk, haway⟩ := hleads.exists_away
  exact ⟨k, hk.trans hm, h.linked, hv, haway, (hk.trans hm).trans (h.length_links hfringe)⟩

/-- Arcs from the last level link new nodes to it. -/
theorem linked_of_followed (h : e.Swept r n) (hfollowed : e.Followed e' arcs)
    (harcs : ∀ arc ∈ arcs, arc.1 ∈ e.fringe ∧ r arc.1 arc.2) : e'.Linked r := by
  intro link hlink
  rw [hfollowed.start_eq]
  rcases hfollowed.of_mem_links link hlink with hlink | ⟨hnew, hlink⟩
  · obtain ⟨harc, hback, haway⟩ := h.linked link hlink
    exact ⟨harc, (hfollowed.knows_iff _).mpr (.inl hback), haway⟩
  · obtain ⟨hfringe, harc⟩ := harcs _ hlink
    have hnear := (h.levelled.mem_level_iff _).mp hfringe
    have hback : e.knows link.2 := (h.levelled.seen_iff _).mpr ⟨n, le_rfl, hnear.1⟩
    refine ⟨harc, (hfollowed.knows_iff _).mpr (.inl hback), n, hnear, ?_⟩
    refine away_succ_iff.mpr ⟨⟨_, hnear, harc⟩, fun m hm hleads => ?_⟩
    exact hnew ((h.levelled.seen_iff _).mpr ⟨m, hm, hleads⟩)

variable (hnext : ∀ v w, w ∈ next v ↔ r v w)

include hnext

/-- A sweep in which the other end is not met goes one level further. -/
theorem sweep_none (h : e.Swept r n) (hfringe : e.fringe ≠ [])
    (hrun : sweep other e next = (e', none)) :
    e'.Swept r (n + 1) ∧ e'.start = e.start ∧ ∀ w, e'.knows w → e.knows w ∨ ¬ other.knows w := by
  obtain ⟨hfollowed, hmeets⟩ := followed_of_followAll_none (.nil e) hrun
  rw [List.nil_append] at hfollowed
  have hheads : ∀ w, (∃ arc ∈ e.fringe.flatMap fun v => (next v).map fun w => (v, w), arc.2 = w) ↔
      ∃ v ∈ e.fringe, r v w := by
    intro w
    simp only [mem_arcs_iff hnext, Prod.exists, exists_eq_right]
  have hlevelled : Levelled r e.start (n + 1) (e'.knows ·) e'.fringe := by
    refine h.levelled.succ (fun w => ?_) fun w => ?_
    · rw [hfollowed.mem_fringe_iff, hheads, and_comm]
    · rw [hfollowed.knows_iff, hfollowed.mem_fringe_iff]
      by_cases hw : e.knows w <;> simp [hw]
  have hlinked : e'.Linked r :=
    h.linked_of_followed hfollowed fun _ harc => (mem_arcs_iff hnext).mp harc
  refine ⟨⟨hfollowed.start_eq ▸ hlevelled, hlinked, fun hmore => ?_⟩, hfollowed.start_eq,
    fun w hw => ?_⟩
  · have := h.length_links hfringe
    have := List.length_pos_of_ne_nil hmore
    rw [hfollowed.length_links]
    omega
  · rcases (hfollowed.knows_iff w).mp hw with hw | ⟨arc, harc, rfl⟩
    · exact .inl hw
    · exact .inr (hmeets arc harc)

/-- A sweep ends where the other end is met, one level further. -/
theorem sweep_some (h : e.Swept r n) (hfringe : e.fringe ≠ [])
    (hapart : ∀ w, e.knows w → ¬ other.knows w) (hrun : sweep other e next = (e', some v)) :
    e'.Retraces r (n + 1) v ∧ e'.start = e.start ∧ other.knows v := by
  obtain ⟨taken, hsubset, hfollowed, ⟨arc, harc, rfl⟩, hmeets⟩ :=
    followed_of_followAll_some (.nil e) hrun
  rw [List.nil_append] at hfollowed
  have harcs : ∀ arc ∈ taken, arc.1 ∈ e.fringe ∧ r arc.1 arc.2 := fun _ harc =>
    (mem_arcs_iff hnext).mp (hsubset harc)
  have hnew : ¬ e.knows arc.2 := fun hknows => hapart _ hknows hmeets
  have haway : Away r (n + 1) e.start arc.2 := by
    refine away_succ_iff.mpr ⟨⟨arc.1, (h.levelled.mem_level_iff _).mp (harcs arc harc).1,
      (harcs arc harc).2⟩, fun m hm hleads => ?_⟩
    exact hnew ((h.levelled.seen_iff _).mpr ⟨m, hm, hleads⟩)
  have hmore : arc.2 ∈ e'.fringe := (hfollowed.mem_fringe_iff _).mpr ⟨hnew, arc, harc, rfl⟩
  refine ⟨⟨h.linked_of_followed hfollowed harcs, ?_, hfollowed.start_eq ▸ haway, ?_⟩,
    hfollowed.start_eq, hmeets⟩
  · exact (hfollowed.knows_iff _).mpr (.inr ⟨arc, harc, rfl⟩)
  · have := h.length_links hfringe
    have := List.length_pos_of_mem hmore
    rw [hfollowed.length_links]
    omega

end Swept

end End

/-! ## Two ends -/

/-- Two ends, one along the arcs and one against them, have gone some levels and have not met. -/
structure Facing (r : α → α → Prop) (front back : End α) (m n : Nat) : Prop where
  swept_front : front.Swept r m
  swept_back : back.Swept (flip r) n
  apart : ∀ w, front.knows w → ¬ back.knows w

namespace Facing

variable {front back front' back' : End α}

theorem symm (h : Facing r front back m n) : Facing (flip r) back front n m :=
  ⟨h.swept_back, h.swept_front, fun w hback hfront => h.apart w hfront hback⟩

/-- Over as many arcs as both ends have gone, nothing leads from one to the other. -/
theorem not_leads (h : Facing r front back m n) {k : Nat} (hk : k ≤ m + n) :
    ¬ Leads r k front.start back.start := by
  intro hleads
  obtain ⟨i, j, hi, hj, rfl⟩ : ∃ i j, i ≤ m ∧ j ≤ n ∧ k = i + j :=
    ⟨min k m, k - min k m, by omega, by omega, by omega⟩
  obtain ⟨w, hfront, hback⟩ := leads_add_iff.mp hleads
  exact h.apart w ((h.swept_front.levelled.seen_iff w).mpr ⟨i, hi, hfront⟩)
    ((h.swept_back.levelled.seen_iff w).mpr ⟨j, hj, hback.flip⟩)

/-- When an end has nowhere to go, nothing leads from one to the other. -/
theorem answers_none (h : Facing r front back m n) (hempty : front.fringe = [] ∨ back.fringe = []) :
    Answers r front.start back.start none := by
  intro k hleads
  rcases hempty with hempty | hempty
  · have hlevelled := h.swept_front.levelled
    rw [hempty] at hlevelled
    exact h.apart _ (hlevelled.seen_of_leads hleads) back.knows_start
  · have hlevelled := h.swept_back.levelled
    rw [hempty] at hlevelled
    exact h.apart _ front.knows_start (hlevelled.seen_of_leads hleads.flip)

/-- The path through the node at which the ends meet has as few arcs as any: with one level less
they had not met. -/
theorem answers_join (h : Facing r front back m n) (hfront : front'.start = front.start)
    (hback : back'.start = back.start) {i j : Nat} (hi : front'.Retraces r i v)
    (hj : back'.Retraces (flip r) j v) (hij : i + j ≤ m + n + 1) :
    Answers r front.start back.start (some (front'.join back' v)) := by
  obtain ⟨hpath, hlength⟩ := hi.join hj
  rw [hfront, hback] at hpath
  refine ⟨hpath, hpath.leads, fun k hk => h.not_leads ?_⟩
  omega

/-- A sweep from one end in which the other is not met leaves the ends one level nearer. -/
theorem of_sweep_none {next : α → List α} (hnext : ∀ v w, w ∈ next v ↔ r v w)
    (h : Facing r front back m n) (hfringe : front.fringe ≠ [])
    (hrun : End.sweep back front next = (front', none)) :
    Facing r front' back (m + 1) n ∧ front'.start = front.start := by
  obtain ⟨hswept, hstart, hknows⟩ := h.swept_front.sweep_none hnext hfringe hrun
  refine ⟨⟨hswept, h.swept_back, fun w hw => ?_⟩, hstart⟩
  exact (hknows w hw).elim (h.apart w) id

/-- A sweep from one end in which the other is met finds a node from which both know their way back,
over one arc more than the levels they have gone at most. -/
theorem of_sweep_some {next : α → List α} (hnext : ∀ v w, w ∈ next v ↔ r v w)
    (h : Facing r front back m n) (hfront : front.fringe ≠ []) (hback : back.fringe ≠ [])
    (hrun : End.sweep back front next = (front', some v)) :
    front'.start = front.start ∧
      ∃ i j, i + j ≤ m + n + 1 ∧ front'.Retraces r i v ∧ back.Retraces (flip r) j v := by
  obtain ⟨hretraces, hstart, hmeets⟩ := h.swept_front.sweep_some hnext hfront h.apart hrun
  obtain ⟨j, hj, hback⟩ := h.swept_back.exists_retraces hback hmeets
  exact ⟨hstart, m + 1, j, by omega, hretraces, hback⟩

/-- Not both ends have something to go on from when they have gone more levels than there can be. -/
theorem exists_fringe_eq_nil {g : Digraph α} (hclosed : g.Closed)
    (h : Facing g.Adj front back m n) (hfront : front.start ∈ g.nodes)
    (hback : back.start ∈ g.nodes) (hlevels : 2 * g.nodes.length ≤ m + n) :
    front.fringe = [] ∨ back.fringe = [] := by
  by_contra hfringes
  push Not at hfringes
  obtain ⟨v, hv⟩ := List.exists_mem_of_ne_nil _ hfringes.1
  obtain ⟨w, hw⟩ := List.exists_mem_of_ne_nil _ hfringes.2
  have hm := hclosed.lt_length_of_away hfront ((h.swept_front.levelled.mem_level_iff v).mp hv)
  have hn := hclosed.reversed.lt_length_of_away hback
    (hclosed.adj_reversed ▸ (h.swept_back.levelled.mem_level_iff w).mp hw)
  rw [nodes_reversed] at hn
  omega

end Facing

variable {g : Digraph α}

/-- Two ends that have not met find a path with as few arcs as possible, if there is one. -/
theorem answers_search (h : g.Closed) {fuel : Nat} {front back : End α}
    (hfront : front.start ∈ g.nodes) (hback : back.start ∈ g.nodes)
    (hfacing : Facing g.Adj front back m n) (hfuel : 2 * g.nodes.length ≤ fuel + m + n) :
    Answers g.Adj front.start back.start (g.search fuel front back) := by
  induction fuel generalizing front back m n with
  | zero => exact hfacing.answers_none (hfacing.exists_fringe_eq_nil h hfront hback (by omega))
  | succ fuel ih =>
    rw [search]
    split
    · rename_i hempty
      simp only [Bool.or_eq_true, List.isEmpty_iff] at hempty
      exact hfacing.answers_none hempty
    rename_i hfringes
    simp only [Bool.or_eq_true, List.isEmpty_iff, not_or] at hfringes
    obtain ⟨hfront', hback'⟩ := hfringes
    split
    -- From the front, along the arcs.
    · split
      · rename_i front' v hrun
        obtain ⟨hstart, i, j, hij, hi, hj⟩ :=
          hfacing.of_sweep_some (fun _ _ => mem_successors_iff) hfront' hback' hrun
        exact hfacing.answers_join hstart rfl hi hj hij
      · rename_i front' hrun
        obtain ⟨hnearer, hstart⟩ :=
          hfacing.of_sweep_none (fun _ _ => mem_successors_iff) hfront' hrun
        rw [← hstart] at hfront ⊢
        exact ih hfront hback hnearer (by omega)
    -- From the back, against them.
    · split
      · rename_i back' v hrun
        obtain ⟨hstart, i, j, hij, hi, hj⟩ :=
          hfacing.symm.of_sweep_some (fun _ _ => mem_predecessors_iff) hback' hfront' hrun
        exact hfacing.answers_join rfl hstart hj hi (by omega)
      · rename_i back' hrun
        obtain ⟨hnearer, hstart⟩ :=
          hfacing.symm.of_sweep_none (fun _ _ => mem_predecessors_iff) hback' hrun
        rw [← hstart] at hback ⊢
        exact ih hfront hback hnearer.symm (by omega)

/-- The search finds a path between two different nodes with as few arcs as possible, if there is
one. -/
theorem answers_path? (h : g.Closed) (hne : u ≠ v) : Answers g.Adj u v (g.path? u v) := by
  rw [path?]
  split
  · rename_i hmissing
    simp only [Bool.or_eq_true, decide_eq_true_eq] at hmissing
    intro n hleads
    obtain ⟨hu, hv⟩ := h.mem_and_mem hleads hne
    exact hmissing.elim (· hu) (· hv)
  · rename_i hnodes
    simp only [Bool.or_eq_true, decide_eq_true_eq, not_or, not_not] at hnodes
    refine answers_search h (m := 0) (n := 0) hnodes.1 hnodes.2 ⟨.start _ u, .start _ v, ?_⟩
      (by omega)
    simp only [End.knows_iff]
    simp [hne]

end EntryFlow.Digraph
