import EntryFlow.Proofs.CalledName

/-!
# Normalized calls

A call is normalized before anything is looked up in it, and normalizing it again changes nothing.
What resolution then makes of it depends on little: whether it is blank, which logging receivers
lead it, its segments, and the method that it is the signature of.

## Main statements

* `Call.unqualified_unqualified`: a normalized call is its own normal form.
* `Conventions.startsLogging_congr`, `Index.firstFound_congr`: what logging and tiers look at.
* `Conventions.resolve_congr`: what a resolution depends on.
-/

namespace EntryFlow

namespace Call

open Text

/-- Normalizing a call a second time changes nothing. -/
theorem unqualified_unqualified (raw : String) :
    unqualified (unqualified raw) = unqualified raw := by
  rw [unqualified, trim_eq_self (trimmed_unqualified raw), unqualified, String.toList_ofList,
    dropQualifiers_idem]

/-- Normalization leaves nothing that is only blank. -/
theorem forall_isBlank_unqualified_iff (raw : String) :
    (∀ c ∈ (unqualified raw).toList, isBlank c = true) ↔ (unqualified raw).isEmpty := by
  rw [← trim_eq_nil_iff, trim_eq_self (trimmed_unqualified raw), String.isEmpty_iff,
    ← String.toList_inj]
  rfl

end Call

/-! ## Calls that are texts -/

theorem Datum.callText_text (raw : String) :
    (Datum.text raw).callText = .ok (Call.unqualified raw) := by
  by_cases hraw : raw = ""
  · rw [hraw, Call.unqualified, Call.dropQualifiers_of_none rfl]
    rfl
  · rw [callText, if_neg (by simpa [isEmpty] using hraw)]

/-- The normalized text of a call is empty, or that of some text. -/
theorem Datum.exists_of_callText {raw : Datum} {call : String} (h : raw.callText = .ok call) :
    ∃ s, call = Call.unqualified s := by
  unfold callText at h
  split at h
  · cases h
    exact ⟨"", by decide +kernel⟩
  · split at h
    · rename_i s _
      cases h
      exact ⟨s, rfl⟩
    · cases h

namespace Conventions

theorem isLogging_text (conventions : Conventions) (raw : String) :
    conventions.isLogging (.text raw) =
      startsLogging (Call.unqualified raw).toList conventions.receivers := by
  rw [isLogging, Datum.callText_text]
  rfl

/-- A call is a logging call before it is normalized and after it. -/
theorem isLogging_unqualified (conventions : Conventions) (raw : String) :
    conventions.isLogging (.text (Call.unqualified raw)) = conventions.isLogging (.text raw) := by
  rw [isLogging_text, Call.unqualified_unqualified, isLogging_text]

/-- Texts that the same receivers lead are logging calls both or neither. -/
theorem startsLogging_congr {xs ys : List Char} {receivers : List Datum}
    (h : ∀ r, .text r ∈ receivers → (r.toList ++ ['.'] <+: xs ↔ r.toList ++ ['.'] <+: ys)) :
    startsLogging xs receivers = startsLogging ys receivers := by
  induction receivers with
  | nil => rfl
  | cons receiver receivers ih =>
    have hrest := ih fun r hr => h r (List.mem_cons_of_mem _ hr)
    cases receiver with
    | text r =>
      have hr := h r List.mem_cons_self
      simp only [startsLogging, List.isPrefixOf_iff_prefix, hr, hrest]
    | _ => rfl

end Conventions

/-! ## Resolution -/

/-- Beside its names, a call matters to the tiers only for the direct one. -/
theorem Index.firstFound_congr {index : Index} {call call' : String} {segments : List String}
    {context : Context}
    (h : (Call.callee? call).bind index.method? = (Call.callee? call').bind index.method?)
    (tiers : List Tier) :
    index.firstFound call segments context tiers =
      index.firstFound call' segments context tiers := by
  induction tiers with
  | nil => rfl
  | cons tier tiers ih =>
    have hfound : index.findIn call segments context tier =
        index.findIn call' segments context tier := by
      cases tier with
      | direct => rw [findIn, findIn, h]
      | _ => rfl
    rw [firstFound, firstFound, hfound, ih]

namespace Conventions

/-- A call matters to its resolution by whether it is blank, by the logging receivers that lead it,
by its names and by the method that it is the signature of. -/
theorem resolve_congr {conventions : Conventions} {index : Index} {context : Context}
    {raw raw' : String}
    (hempty : (Call.unqualified raw).isEmpty = (Call.unqualified raw').isEmpty)
    (hlogging : startsLogging (Call.unqualified raw).toList conventions.receivers =
      startsLogging (Call.unqualified raw').toList conventions.receivers)
    (hsegments : Call.segments (Call.unqualified raw) = Call.segments (Call.unqualified raw'))
    (hdirect : (Call.callee? (Call.unqualified raw)).bind index.method? =
      (Call.callee? (Call.unqualified raw')).bind index.method?) :
    conventions.resolve index (.text raw) context =
      conventions.resolve index (.text raw') context := by
  simp only [resolve, Datum.callText_text, isLogging_text, Call.unqualified_unqualified, hempty,
    hlogging, hsegments, resolveSegments, Index.firstFound_congr hdirect]

end Conventions

end EntryFlow
