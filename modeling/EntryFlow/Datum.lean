import EntryFlow.Number.Binary

/-!
# Document values

`Datum` is the value of a document in JSON or YAML. A corpus and a configuration are read from such
documents, and a field of theirs may hold any value: a value of the wrong sort is an error only
where it is used.

## Main definitions

* `Datum`: the type, with decidable equality.
* `Datum.isEmpty`: the values that count as absent.
* `Datum.field?`, `Datum.items?`, `Datum.ofFields`.
-/

namespace EntryFlow

/-- A document value. Objects keep the order of their fields. -/
inductive Datum where
  | null
  | bool (b : Bool)
  | int (n : Int)
  | float (x : Binary)
  | text (s : String)
  | list (items : List Datum)
  | object (fields : List (String × Datum))
  deriving Repr

namespace Datum

mutual

/-- Equality test of values. -/
def beq : Datum → Datum → Bool
  | null, null => true
  | bool a, bool b => a == b
  | int a, int b => a == b
  | float a, float b => a == b
  | text a, text b => a == b
  | list a, list b => beqList a b
  | object a, object b => beqFields a b
  | _, _ => false

/-- Equality test of lists of values. -/
def beqList : List Datum → List Datum → Bool
  | [], [] => true
  | a :: as, b :: bs => beq a b && beqList as bs
  | _, _ => false

/-- Equality test of lists of fields. -/
def beqFields : List (String × Datum) → List (String × Datum) → Bool
  | [], [] => true
  | (k, a) :: as, (l, b) :: bs => k == l && beq a b && beqFields as bs
  | _, _ => false

end

mutual

theorem eq_of_beq : ∀ a b : Datum, beq a b = true → a = b
  | null, b, h => by cases b <;> simp_all [beq]
  | bool a, b, h => by cases b <;> simp_all [beq]
  | int a, b, h => by cases b <;> simp_all [beq]
  | float a, b, h => by cases b <;> simp_all [beq]
  | text a, b, h => by cases b <;> simp_all [beq]
  | list a, b, h => by
    cases b with
    | list b => rw [eq_of_beqList a b (by simpa [beq] using h)]
    | _ => simp [beq] at h
  | object a, b, h => by
    cases b with
    | object b => rw [eq_of_beqFields a b (by simpa [beq] using h)]
    | _ => simp [beq] at h

theorem eq_of_beqList : ∀ as bs : List Datum, beqList as bs = true → as = bs
  | [], bs, h => by cases bs <;> simp_all [beqList]
  | a :: as, bs, h => by
    cases bs with
    | nil => simp [beqList] at h
    | cons b bs =>
      simp only [beqList, Bool.and_eq_true] at h
      rw [eq_of_beq a b h.1, eq_of_beqList as bs h.2]

theorem eq_of_beqFields : ∀ as bs : List (String × Datum), beqFields as bs = true → as = bs
  | [], bs, h => by cases bs <;> simp_all [beqFields]
  | (k, a) :: as, bs, h => by
    cases bs with
    | nil => simp [beqFields] at h
    | cons b bs =>
      simp only [beqFields, Bool.and_eq_true, beq_iff_eq] at h
      rw [eq_of_beqFields as bs h.2, h.1.1, eq_of_beq a b.2 h.1.2]

end

mutual

theorem beq_self : ∀ a : Datum, beq a a = true
  | null => rfl
  | bool _ => by simp [beq]
  | int _ => by simp [beq]
  | float _ => by simp [beq]
  | text _ => by simp [beq]
  | list a => by simpa [beq] using beqList_self a
  | object a => by simpa [beq] using beqFields_self a

theorem beqList_self : ∀ as : List Datum, beqList as as = true
  | [] => rfl
  | a :: as => by simp [beqList, beq_self a, beqList_self as]

theorem beqFields_self : ∀ as : List (String × Datum), beqFields as as = true
  | [] => rfl
  | (_, a) :: as => by simp [beqFields, beq_self a, beqFields_self as]

end

instance : DecidableEq Datum := fun a b =>
  decidable_of_iff (beq a b = true) ⟨eq_of_beq a b, fun h => h ▸ beq_self a⟩

/-- Whether a value counts as absent: null, false, zero, an empty text, list or object. -/
def isEmpty : Datum → Bool
  | null => true
  | bool b => !b
  | int n => n == 0
  | float x => x.isZero
  | text s => s.isEmpty
  | list items => items.isEmpty
  | object fields => fields.isEmpty

/-- The field of that name, where the value has fields at all. -/
def lookup (key : String) (fields : List (String × Datum)) : Option Datum :=
  fields.lookup key

/-- Set a field; a new one goes to the end. -/
def insert (fields : List (String × Datum)) (key : String) (value : Datum) :
    List (String × Datum) :=
  if fields.any (·.1 == key) then fields.map fun f => if f.1 == key then (key, value) else f
  else fields ++ [(key, value)]

/-- The object of fields in which a later one replaces the value of an earlier one. -/
def ofFields (fields : List (String × Datum)) : Datum :=
  object (fields.foldl (fun acc f => insert acc f.1 f.2) [])

/-- The parts that a value is a sequence of: the items of a list, the characters of a text, the
names of an object's fields. -/
def items? : Datum → Option (List Datum)
  | list items => some items
  | text s => some (s.toList.map fun c => text (String.singleton c))
  | object fields => some (fields.map fun f => text f.1)
  | _ => none

/-- The text that a value is. -/
def text? : Datum → Option String
  | text s => some s
  | _ => none

/-- The value of an optional text. -/
def ofText? : Option String → Datum
  | some s => text s
  | none => null

end Datum

end EntryFlow
