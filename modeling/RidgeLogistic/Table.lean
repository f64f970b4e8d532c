import RidgeLogistic.Vec

/-!
# Tables

A table of scalars with a width of its own, which it has even without rows: the
empty table with three columns and the one with none are different tables.
-/

namespace RidgeLogistic

structure Table (α : Type) where
  width : Nat
  rows : List (Vec α width)

namespace Table

variable {α : Type}

def height (x : Table α) : Nat :=
  x.rows.length

/-- The table with the given rows, if every one of them has the given width. -/
def ofRows? (width : Nat) (rows : List (List α)) : Option (Table α) :=
  (rows.mapM (Vec.ofList? width)).map (Table.mk width)

/-- The entries of one column, from the first row to the last. -/
def column (x : Table α) (j : Fin x.width) : List α :=
  x.rows.map (·.get j)

def take (n : Nat) (x : Table α) : Table α :=
  { x with rows := x.rows.take n }

def drop (n : Nat) (x : Table α) : Table α :=
  { x with rows := x.rows.drop n }

/-- The rows at the given places, in the given order; a place outside the table
contributes none. -/
def select (places : List Nat) (x : Table α) : Table α :=
  { x with rows := places.filterMap (x.rows[·]?) }

/-- A column of ones put in front, which stands for a constant term. -/
def withOnes [One α] (x : Table α) : Table α :=
  { width := x.width + 1, rows := x.rows.map (Vec.cons 1) }

@[simp] theorem height_withOnes [One α] (x : Table α) :
    x.withOnes.height = x.height := by
  simp [height, withOnes]

end Table

end RidgeLogistic
