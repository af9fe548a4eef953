import Mathlib.Data.List.Forall2

/-!
# Computations that may fail

When a computation of several parts has a result, and what is known of the result then. A list of
computations has one if each of them has.

## Main definitions

* `Gives`: a result exists and satisfies a condition.
* `Fails`: every fault satisfies a condition.

## Main statements

* `bind_eq_ok_iff`, `mapM_eq_ok_iff`: the results of computations one after the other.
* `Gives.bind`, `Gives.mapM`: conditions on them.
* `Fails.bind`, `Fails.mapM`: conditions on their faults.
-/

namespace EntryFlow

theorem ok_bind {ε α β : Type} (a : α) (f : α → Except ε β) : Except.ok a >>= f = f a := rfl

/-- A computation in two parts gives a result through one of the first part. -/
theorem bind_eq_ok_iff {ε α β : Type} {x : Except ε α} {f : α → Except ε β} {b : β} :
    x >>= f = .ok b ↔ ∃ a, x = .ok a ∧ f a = .ok b := by
  constructor
  · intro h
    cases x with
    | error fault => cases h
    | ok a => exact ⟨a, rfl, h⟩
  · rintro ⟨a, rfl, h⟩
    exact h

/-- A result that is changed comes from one that was there. -/
theorem map_eq_ok_iff {ε α β : Type} {x : Except ε α} {f : α → β} {b : β} :
    x.map f = .ok b ↔ ∃ a, x = .ok a ∧ f a = b := by
  cases x <;> simp [Except.map]

/-- A list of results is there if each of its items is. -/
theorem mapM_eq_ok_iff {ε α β : Type} {f : α → Except ε β} {xs : List α} {ys : List β} :
    xs.mapM f = .ok ys ↔ List.Forall₂ (fun x y => f x = .ok y) xs ys := by
  induction xs generalizing ys with
  | nil => cases ys <;> simp [pure, Except.pure]
  | cons x xs ih =>
    rw [List.mapM_cons, bind_eq_ok_iff]
    constructor
    · rintro ⟨y, hy, h⟩
      obtain ⟨ys', hys, h⟩ := bind_eq_ok_iff.mp h
      cases h
      exact .cons hy (ih.mp hys)
    · rintro (_ | ⟨hy, hys⟩)
      exact ⟨_, hy, bind_eq_ok_iff.mpr ⟨_, ih.mpr hys, rfl⟩⟩

/-- What may be left out has a result if it is left out or has one. -/
theorem optionMapM_eq_ok_iff {ε α β : Type} {f : α → Except ε β} {x : Option α} {y : Option β} :
    x.mapM f = .ok y ↔ Option.Rel (fun a b => f a = .ok b) x y := by
  cases x with
  | none =>
    cases y with
    | none => simp [pure, Except.pure]
    | some b => simp [pure, Except.pure]
  | some a =>
    cases hf : f a <;> cases y <;> simp [hf, Functor.map, Except.map]

/-- What holds at the start of a fold and is kept by each of its steps holds of its result. -/
theorem of_foldlM_eq_ok {ε σ γ : Type} {f : σ → γ → Except ε σ} {P : σ → Prop}
    (hstep : ∀ s x t, P s → f s x = .ok t → P t) {items : List γ} {s t : σ} (hs : P s)
    (h : items.foldlM f s = .ok t) : P t := by
  induction items generalizing s with
  | nil =>
    cases h
    exact hs
  | cons x items ih =>
    rw [List.foldlM_cons, bind_eq_ok_iff] at h
    obtain ⟨u, hu, h⟩ := h
    exact ih (hstep s x u hs hu) h

/-- A fold in which every step gives a result is a plain fold. -/
theorem foldlM_eq_ok {ε σ γ : Type} {f : σ → γ → Except ε σ} {g : σ → γ → σ} {items : List γ}
    (h : ∀ s, ∀ x ∈ items, f s x = .ok (g s x)) (s : σ) :
    items.foldlM f s = .ok (items.foldl g s) := by
  induction items generalizing s with
  | nil => rfl
  | cons x items ih =>
    rw [List.foldlM_cons, bind_eq_ok_iff]
    exact ⟨g s x, h s x List.mem_cons_self, ih (fun s y hy => h s y (List.mem_cons_of_mem _ hy)) _⟩

/-- A filter whose test has a result for each item is a plain filter. -/
theorem filterM_eq_ok {ε γ : Type} {f : γ → Except ε Bool} {g : γ → Bool} {items : List γ}
    (h : ∀ x ∈ items, f x = .ok (g x)) : items.filterM f = .ok (items.filter g) := by
  have haux : ∀ acc, items.filterAuxM f acc = .ok ((items.filter g).reverse ++ acc) := by
    induction items with
    | nil => exact fun _ => rfl
    | cons x items ih =>
      intro acc
      obtain ⟨hx, hitems⟩ := List.forall_mem_cons.mp h
      rw [List.filterAuxM, hx, ok_bind, ih hitems, List.filter_cons]
      cases g x <;> simp
  rw [List.filterM, haux, ok_bind, List.append_nil, List.reverse_reverse]
  rfl

/-- The computation gives a result, and it satisfies the condition. -/
def Gives {ε α : Type} (x : Except ε α) (P : α → Prop) : Prop :=
  ∃ a, x = .ok a ∧ P a

namespace Gives

variable {ε α β : Type}

theorem ok {P : α → Prop} {a : α} (h : P a) : Gives (.ok a : Except ε α) P := ⟨a, rfl, h⟩

theorem bind {x : Except ε α} {f : α → Except ε β} {P : α → Prop} {Q : β → Prop}
    (hx : Gives x P) (hf : ∀ a, P a → Gives (f a) Q) : Gives (x >>= f) Q := by
  obtain ⟨a, rfl, ha⟩ := hx
  exact hf a ha

theorem map {x : Except ε α} {f : α → β} {P : α → Prop} {Q : β → Prop} (hx : Gives x P)
    (hf : ∀ a, P a → Q (f a)) : Gives (x.map f) Q := by
  obtain ⟨a, rfl, ha⟩ := hx
  exact ⟨f a, rfl, hf a ha⟩

theorem ok_iff {P : α → Prop} {a : α} : Gives (.ok a : Except ε α) P ↔ P a := by
  constructor
  · rintro ⟨_, ⟨⟩, ha⟩
    exact ha
  · exact .ok

theorem map_iff {x : Except ε α} {f : α → β} {Q : β → Prop} :
    Gives (x.map f) Q ↔ Gives x fun a => Q (f a) := by
  cases x with
  | error fault => exact iff_of_false nofun nofun
  | ok a => exact ok_iff.trans (ok_iff (P := fun a => Q (f a))).symm

/-- Results for all items of a list. -/
theorem mapM {f : α → Except ε β} {P : α → β → Prop} {xs : List α}
    (h : ∀ x ∈ xs, Gives (f x) (P x)) : Gives (xs.mapM f) (List.Forall₂ P xs) := by
  induction xs with
  | nil => exact .ok .nil
  | cons x xs ih =>
    obtain ⟨hx, hxs⟩ := List.forall_mem_cons.mp h
    rw [List.mapM_cons]
    exact hx.bind fun b hb => (ih hxs).bind fun bs hbs => .ok (.cons hb hbs)

end Gives

/-- The look-up has a result. -/
abbrev Total {ε α : Type} (x : Except ε α) : Prop := Gives x fun _ => True

theorem total_mapM {ε α β : Type} {f : α → Except ε β} {xs : List α}
    (h : ∀ x ∈ xs, Total (f x)) : Total (xs.mapM f) := by
  obtain ⟨ys, hys, -⟩ := Gives.mapM h
  exact ⟨ys, hys, trivial⟩

/-- Whatever fault the computation ends in satisfies the condition. -/
def Fails {ε α : Type} (x : Except ε α) (P : ε → Prop) : Prop :=
  ∀ fault, x = .error fault → P fault

namespace Fails

variable {ε α β : Type} {P : ε → Prop}

theorem ok (a : α) : Fails (.ok a) P := nofun

theorem error {fault : ε} (h : P fault) : Fails (.error fault : Except ε α) P := by
  rintro _ ⟨⟩
  exact h

theorem bind {x : Except ε α} {f : α → Except ε β} (hx : Fails x P) (hf : ∀ a, Fails (f a) P) :
    Fails (x >>= f) P := by
  cases x with
  | error fault => exact .error (hx fault rfl)
  | ok a => exact hf a

theorem mapM {f : α → Except ε β} (hf : ∀ a, Fails (f a) P) (xs : List α) :
    Fails (xs.mapM f) P := by
  induction xs with
  | nil => exact .ok _
  | cons x xs ih =>
    rw [List.mapM_cons]
    exact (hf x).bind fun b => ih.bind fun bs => .ok _

theorem optionMapM {f : α → Except ε β} (hf : ∀ a, Fails (f a) P) (x : Option α) :
    Fails (x.mapM f) P := by
  cases x with
  | none => exact .ok _
  | some a =>
    rw [Option.mapM_some, map_eq_pure_bind]
    exact (hf a).bind fun b => .ok _

end Fails

end EntryFlow
