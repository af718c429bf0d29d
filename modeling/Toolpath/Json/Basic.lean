import Toolpath.Double.Basic

/-! # JSON values

The tree that a JSON text denotes.  The fields of a record keep the order in which their names first
appear; a name given twice keeps its place and takes the later value (`Json.put`).
-/
namespace Toolpath

/-- What a JSON text denotes. -/
inductive Json
  | null
  | bool (value : Bool)
  | number (value : Double)
  | text (value : String)
  | list (items : List Json)
  | record (fields : List (String × Json))

instance : Inhabited Json := ⟨.null⟩

namespace Json

/-- A count as a number. -/
def ofNat (n : Nat) : Json := .number (.ofNat n)

/-- The fields with one name bound to a value: in its old place if it has one, else at the end. -/
def put (fields : List (String × α)) (name : String) (value : α) : List (String × α) :=
  match fields with
  | [] => [(name, value)]
  | field :: rest =>
    if field.1 = name then (name, value) :: rest else field :: put rest name value

/-- A name that is not there yet goes to the end. -/
theorem put_of_notMem {fields : List (String × α)} {name : String} {value : α}
    (h : name ∉ fields.map Prod.fst) : put fields name value = fields ++ [(name, value)] := by
  induction fields with
  | nil => rfl
  | cons field rest ih =>
    rw [List.map_cons, List.mem_cons, not_or] at h
    rw [put, if_neg (Ne.symm h.1), ih h.2, List.cons_append]

end Json
end Toolpath
