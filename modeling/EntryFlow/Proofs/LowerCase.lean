import EntryFlow.Text.Case

/-!
# Lower case is final

A text in lower case is its own lower case. For the table this means that no character to which a
run moves another one is moved itself. The points and the images of the runs are compared as two
sets of bits, since to look up each image in each run takes long. The capital sigma is the one
character whose lower case depends on its neighbours, and it is the lower case of none.

## Main definitions

* `Text.Run.points`, `Text.Run.images`: what a run covers and where it moves it.
* `Text.Settled`: characters that are their own lower case.

## Main statements

* `Text.imageIn?_lowerRuns_image`: what is moved once is not moved again.
* `Text.settled_of_mem_lowerChar`: the lower case of a character is settled.
* `Text.lower_lower`: lower case is idempotent.
-/

namespace EntryFlow.Text

/-! ## Sets of numbers as bits -/

/-- The number whose bits are at the places `ns`. -/
def bitsAt (ns : List Nat) : Nat :=
  ns.foldr (fun n bits => 1 <<< n ||| bits) 0

theorem testBit_bitsAt {ns : List Nat} {n : Nat} (h : n ∈ ns) : (bitsAt ns).testBit n = true := by
  induction ns with
  | nil => cases h
  | cons m ns ih =>
    rw [bitsAt, List.foldr_cons, Nat.testBit_or, Bool.or_eq_true]
    rcases List.mem_cons.mp h with rfl | h
    · exact .inl (by simp)
    · exact .inr (ih h)

theorem not_mem_of_land_eq_zero {ms ns : List Nat} (h : bitsAt ms &&& bitsAt ns = 0) {n : Nat}
    (hm : n ∈ ms) : n ∉ ns := by
  intro hn
  have hboth : (bitsAt ms &&& bitsAt ns).testBit n = true := by
    rw [Nat.testBit_and, testBit_bitsAt hm, testBit_bitsAt hn]
    rfl
  rw [h, Nat.zero_testBit] at hboth
  cases hboth

/-! ## Runs -/

/-- The points that a run covers. -/
def Run.points : Run → List Nat
  | (first, last, step, _) => List.range' first ((last - first) / step + 1) step

/-- Where a run moves its points. -/
def Run.images : Run → List Nat
  | r@(_, _, _, shift) => r.points.map fun n : Nat => ((n : Int) + shift).toNat

theorem Run.mem_points_of_image? {r : Run} {n m : Nat} (h : r.image? n = some m) :
    n ∈ r.points ∧ m ∈ r.images := by
  obtain ⟨first, last, step, shift⟩ := r
  simp only [image?, Option.ite_none_right_eq_some, Option.some.injEq] at h
  obtain ⟨⟨hfirst, hlast, hstep⟩, rfl⟩ := h
  have hpoint : n ∈ points (first, last, step, shift) := by
    refine List.mem_range'.mpr ⟨(n - first) / step, ?_, ?_⟩
    · exact Nat.lt_succ_of_le (Nat.div_le_div_right (by omega))
    · have hdiv := Nat.div_add_mod (n - first) step
      omega
  exact ⟨hpoint, List.mem_map_of_mem hpoint⟩

/-- A code that the lower case of a character may have: it is that of a character, of a small letter
if it is in ASCII, and not that of the capital I with a dot. -/
def isLowerCode (n : Nat) : Bool :=
  (n < 0xD800 || 0xDFFF < n && n < 0x110000) && (0x80 ≤ n || 0x61 ≤ n && n ≤ 0x7A) && n != 0x130

theorem images_lowerRuns_isLowerCode :
    (lowerRuns.flatMap Run.images).all isLowerCode = true := by decide +kernel

theorem images_lowerRuns_land_points :
    bitsAt (lowerRuns.flatMap Run.images) &&& bitsAt (lowerRuns.flatMap Run.points) = 0 := by
  decide +kernel

/-- What is moved once is not moved again. -/
theorem imageIn?_lowerRuns_image {n m : Nat} (h : imageIn? lowerRuns n = some m) :
    isLowerCode m = true ∧ imageIn? lowerRuns m = none := by
  obtain ⟨r, hr, himage⟩ := List.exists_of_findSome?_eq_some h
  have hm : m ∈ lowerRuns.flatMap Run.images :=
    List.mem_flatMap.mpr ⟨r, hr, (Run.mem_points_of_image? himage).2⟩
  refine ⟨List.all_eq_true.mp images_lowerRuns_isLowerCode m hm, ?_⟩
  rw [imageIn?, List.findSome?_eq_none_iff]
  refine fun s hs => Option.eq_none_iff_forall_ne_some.mpr fun k hk => ?_
  exact not_mem_of_land_eq_zero images_lowerRuns_land_points hm
    (List.mem_flatMap.mpr ⟨s, hs, (Run.mem_points_of_image? hk).1⟩)

/-! ## Characters -/

/-- The character is its own lower case wherever it stands. -/
def Settled (c : Char) : Prop :=
  lowerChar c = [c] ∧ c ≠ 'Σ'

instance (c : Char) : Decidable (Settled c) :=
  inferInstanceAs (Decidable (lowerChar c = [c] ∧ c ≠ 'Σ'))

theorem lookup_lowerExpansions {n : Nat} (h : n ≠ 0x130) : lowerExpansions.lookup n = none := by
  rw [List.lookup_eq_none_iff]
  simpa [lowerExpansions] using h

/-- A character that no table moves is settled. -/
theorem settled_of_imageIn?_eq_none {c : Char} (hcapital : c.toNat < 128 → c.toLower = c)
    (hexpands : c.toNat ≠ 0x130) (h : imageIn? lowerRuns c.toNat = none) : Settled c := by
  constructor
  · rw [lowerChar, lookup_lowerExpansions hexpands, h]
    split
    · rename_i hascii
      rw [hcapital hascii]
    · rfl
  · rintro rfl
    exact absurd h (by decide +kernel)

theorem settled_ofNat {n : Nat} (hn : isLowerCode n = true)
    (h : imageIn? lowerRuns n = none) : Settled (Char.ofNat n) := by
  simp only [isLowerCode, Bool.and_eq_true, Bool.or_eq_true, decide_eq_true_eq, bne_iff_ne] at hn
  obtain ⟨⟨hvalid, hsmall⟩, hexpands⟩ := hn
  have htoNat : (Char.ofNat n).toNat = n := by
    rw [Char.ofNat, dif_pos hvalid]
    rfl
  refine settled_of_imageIn?_eq_none (fun hascii => ?_) (by rwa [htoNat]) (by rwa [htoNat])
  refine dif_neg fun hcapital => ?_
  have hle : (Char.ofNat n).toNat ≤ 0x5A := UInt32.le_iff_toNat_le.mp hcapital.2
  omega

/-- The lower case of a character is settled. -/
theorem settled_of_mem_lowerChar {c d : Char} (h : d ∈ lowerChar c) : Settled d := by
  rw [lowerChar] at h
  split at h
  · rename_i hascii
    have hall : ∀ n < 128, Settled (Char.ofNat n).toLower := by decide +kernel
    have hc := hall c.toNat hascii
    rw [Char.ofNat_toNat] at hc
    rwa [List.mem_singleton.mp h]
  · rename_i hascii
    by_cases hexpands : c.toNat = 0x130
    · rw [hexpands] at h
      obtain rfl | rfl : d = 'i' ∨ d = Char.ofNat 0x307 := by simpa [lowerExpansions] using h
      · exact settled_ofNat rfl (by decide +kernel)
      · exact settled_ofNat rfl (by decide +kernel)
    · rw [lookup_lowerExpansions hexpands] at h
      cases himage : imageIn? lowerRuns c.toNat with
      | none =>
        rw [himage] at h
        obtain rfl := List.mem_singleton.mp h
        exact settled_of_imageIn?_eq_none (fun hc => absurd hc hascii) hexpands himage
      | some m =>
        rw [himage] at h
        obtain rfl := List.mem_singleton.mp h
        obtain ⟨hm, hnone⟩ := imageIn?_lowerRuns_image himage
        exact settled_ofNat hm hnone

/-! ## Texts -/

theorem settled_of_mem_lowerAfter {before cs : List Char} {d : Char}
    (h : d ∈ lowerAfter before cs) : Settled d := by
  induction cs generalizing before with
  | nil => cases h
  | cons c cs ih =>
    rw [lowerAfter, List.mem_append] at h
    rcases h with h | h
    · split at h
      · have hsigma : ∀ isFinal : Bool, Settled (if isFinal then 'ς' else 'σ') := by decide +kernel
        rw [List.mem_singleton.mp h]
        exact hsigma _
      · exact settled_of_mem_lowerChar h
    · exact ih h

theorem lowerAfter_of_settled {before cs : List Char} (h : ∀ c ∈ cs, Settled c) :
    lowerAfter before cs = cs := by
  induction cs generalizing before with
  | nil => rfl
  | cons c cs ih =>
    obtain ⟨⟨hc, hsigma⟩, hcs⟩ := List.forall_mem_cons.mp h
    rw [lowerAfter, if_neg hsigma, hc, ih hcs]
    rfl

/-- A text in lower case is its own lower case. -/
theorem lower_lower (s : String) : lower (lower s) = lower s := by
  rw [lower, lower, String.toList_ofList,
    lowerAfter_of_settled fun _ => settled_of_mem_lowerAfter]

end EntryFlow.Text
