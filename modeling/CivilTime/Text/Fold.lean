/-!
# ASCII case

Names and identifiers are compared without regard to the case of ASCII letters; all other
characters stand for themselves.
-/
namespace CivilTime.Text

/-- The text with ASCII capitals made small. -/
def fold (cs : List Char) : List Char := cs.map Char.toLower

/-- The text with ASCII capitals made small. -/
def foldString (s : String) : String := String.ofList (fold s.toList)

@[simp] theorem fold_nil : fold [] = [] := rfl

@[simp] theorem fold_cons (c : Char) (cs : List Char) : fold (c :: cs) = c.toLower :: fold cs := rfl

@[simp] theorem length_fold (cs : List Char) : (fold cs).length = cs.length := by
  simp [fold]

theorem fold_append (cs ds : List Char) : fold (cs ++ ds) = fold cs ++ fold ds := by
  simp [fold]

theorem fold_take (n : Nat) (cs : List Char) : fold (cs.take n) = (fold cs).take n := by
  simp [fold]

end CivilTime.Text
