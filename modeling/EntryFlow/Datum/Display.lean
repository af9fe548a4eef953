import EntryFlow.Datum
import EntryFlow.Number.Shortest
import EntryFlow.Text.Quoted

/-!
# Values inside messages and names

The text of a value where a message or a name is put together. A text stands as it is at the top
and in quotes inside a list or an object.
-/

namespace EntryFlow.Datum

mutual

/-- The text of a value inside a list or an object. -/
def shown : Datum → String
  | null => "None"
  | bool b => if b then "True" else "False"
  | int n => toString n
  | float x => x.text
  | text s => Text.quoted s
  | list items => "[" ++ ", ".intercalate (shownItems items) ++ "]"
  | object fields => "\x7b" ++ ", ".intercalate (shownFields fields) ++ "\x7d"

/-- The texts of the items of a list. -/
def shownItems : List Datum → List String
  | [] => []
  | d :: ds => shown d :: shownItems ds

/-- The texts of the fields of an object. -/
def shownFields : List (String × Datum) → List String
  | [] => []
  | (k, d) :: ds => (Text.quoted k ++ ": " ++ shown d) :: shownFields ds

end

/-- The text of a value. -/
def display : Datum → String
  | text s => s
  | d => shown d

@[simp] theorem display_text (s : String) : (text s).display = s := rfl

end EntryFlow.Datum
