import GraphTex.Command

/-!
# Registries

A registry holds commands under their names, one command a name. Registering a command replaces
the one that had its name.
-/

namespace GraphTex

/-- A set of commands, the latest registered in front. -/
structure Registry where
  commands : List Command := []
  deriving DecidableEq, Repr

namespace Registry

/-- The registry without commands. -/
def empty : Registry := {}

/-- The command with a name. -/
def get? (r : Registry) (name : Text) : Option Command := r.commands.find? (·.name == name)

/-- The name is registered. -/
def contains (r : Registry) (name : Text) : Bool := (r.get? name).isSome

/-- The number of commands. -/
def size (r : Registry) : Nat := r.commands.length

/-- Adds a command in place of the one that has its name. -/
def register (r : Registry) (c : Command) : Registry :=
  ⟨c :: r.commands.filter (·.name != c.name)⟩

/-- Adds commands one after the other. -/
def registerAll (r : Registry) (cs : List Command) : Registry := cs.foldl register r

/-- The commands in the order of their names. -/
def sorted (r : Registry) : List Command := r.commands.mergeSort fun c d => !d.name.isBefore c.name

@[simp] theorem get?_empty (name : Text) : empty.get? name = none := rfl

theorem get?_register (r : Registry) (c : Command) (name : Text) :
    (r.register c).get? name = if c.name = name then some c else r.get? name := by
  by_cases h : c.name = name
  · simp [get?, register, h]
  · rw [if_neg h, get?, register, List.find?_cons_of_neg (by simpa using h), List.find?_filter]
    congr 1
    funext d
    by_cases hd : d.name = name <;> simp [hd, Ne.symm h]

end Registry

end GraphTex
