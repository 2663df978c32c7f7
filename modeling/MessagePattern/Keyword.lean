/-
# Types whose values are words

Format options take their values from short lists of words.  Each such list is a
type of its own, and this class ties its values to their spellings.  The law in
the class says that every value is listed and that no two values share a
spelling, so reading a written word gives back the value.
-/

namespace MessagePattern

/-- A finite type whose values are written as distinct words. -/
class Keyword (α : Type) where
  /-- Every value of the type. -/
  all : List α
  /-- The spelling of a value. -/
  word : α → String
  /-- The first value that is spelled like `a` is `a`. -/
  find_word : ∀ a, all.find? (fun b => word b == word a) = some a

namespace Keyword

/-- The value with a given spelling, letter case included. -/
def ofWord? {α : Type} [Keyword α] (s : String) : Option α :=
  (all : List α).find? fun a => word a == s

/-- A written value reads back as itself. -/
@[simp] theorem ofWord?_word {α : Type} [Keyword α] (a : α) : ofWord? (word a) = some a :=
  find_word a

end Keyword

end MessagePattern
