import RidgeLogistic.Scalar

/-!
# Vectors of fixed width

A `Vec α d` is a list of `d` scalars. The width is part of the type, so the
operations on two vectors are total and never cut one short: whether a list that
comes from outside has the right length is settled once, by `Vec.ofList?`.

The view of a vector is `toList`; each operation says what it does to it.
-/

namespace RidgeLogistic

/-- A list of exactly `d` entries. -/
@[ext]
structure Vec (α : Type) (d : Nat) where
  toList : List α
  length_toList : toList.length = d

namespace Vec

variable {α β γ : Type} {d : Nat}

attribute [simp] length_toList

/-- The entries as a vector of width `d`, if there are `d` of them. -/
def ofList? (d : Nat) (xs : List α) : Option (Vec α d) :=
  if h : xs.length = d then some ⟨xs, h⟩ else none

def get (v : Vec α d) (i : Fin d) : α :=
  v.toList.get (i.cast v.length_toList.symm)

/-- The vector whose entry at each index is the value of a function there. -/
def ofFn (f : Fin d → α) : Vec α d :=
  ⟨List.ofFn f, List.length_ofFn⟩

def replicate (d : Nat) (a : α) : Vec α d :=
  ⟨List.replicate d a, List.length_replicate⟩

def nil : Vec α 0 :=
  ⟨[], rfl⟩

def cons (a : α) (v : Vec α d) : Vec α (d + 1) :=
  ⟨a :: v.toList, congrArg (· + 1) v.length_toList⟩

/-- The same entries under another name of the width. -/
def cast {e : Nat} (h : d = e) (v : Vec α d) : Vec α e :=
  ⟨v.toList, v.length_toList.trans h⟩

def map (f : α → β) (v : Vec α d) : Vec β d :=
  ⟨v.toList.map f, (List.length_map f).trans v.length_toList⟩

def zipWith (f : α → β → γ) (u : Vec α d) (v : Vec β d) : Vec γ d :=
  ⟨List.zipWith f u.toList v.toList, by simp⟩

@[simp] theorem toList_ofFn (f : Fin d → α) : (ofFn f).toList = List.ofFn f := rfl

@[simp] theorem toList_nil : (nil : Vec α 0).toList = [] := rfl

@[simp] theorem toList_replicate (a : α) :
    (replicate d a).toList = List.replicate d a := rfl

@[simp] theorem toList_cons (a : α) (v : Vec α d) :
    (cons a v).toList = a :: v.toList := rfl

@[simp] theorem toList_cast {e : Nat} (h : d = e) (v : Vec α d) :
    (v.cast h).toList = v.toList := rfl

@[simp] theorem toList_map (f : α → β) (v : Vec α d) :
    (v.map f).toList = v.toList.map f := rfl

@[simp] theorem toList_zipWith (f : α → β → γ) (u : Vec α d) (v : Vec β d) :
    (zipWith f u v).toList = List.zipWith f u.toList v.toList := rfl

theorem ofList?_eq_some_iff {xs : List α} {v : Vec α d} :
    ofList? d xs = some v ↔ xs = v.toList := by
  unfold ofList?
  split
  · exact ⟨fun h => by injection h with h; rw [← h],
      fun h => congrArg some (Vec.ext h)⟩
  · rename_i hne
    exact ⟨fun h => by injection h, fun h => absurd (h ▸ v.length_toList) hne⟩

@[simp] theorem ofList?_toList (v : Vec α d) : ofList? d v.toList = some v :=
  ofList?_eq_some_iff.2 rfl

/-! ## Entries -/

theorem get_eq_getElem (v : Vec α d) (i : Fin d) (h : i.val < v.toList.length) :
    v.get i = v.toList[i.val] := rfl

theorem ext_get {u v : Vec α d} (h : ∀ i, u.get i = v.get i) : u = v := by
  apply Vec.ext
  apply List.ext_getElem
  · rw [u.length_toList, v.length_toList]
  · intro i hi _
    exact h ⟨i, by rwa [u.length_toList] at hi⟩

@[simp] theorem get_ofFn (f : Fin d → α) (i : Fin d) : (ofFn f).get i = f i := by
  simp [get_eq_getElem]

@[simp] theorem get_replicate (a : α) (i : Fin d) : (replicate d a).get i = a := by
  simp [get_eq_getElem]

@[simp] theorem get_map (f : α → β) (v : Vec α d) (i : Fin d) :
    (v.map f).get i = f (v.get i) := by
  simp [get_eq_getElem]

@[simp] theorem get_zipWith (f : α → β → γ) (u : Vec α d) (v : Vec β d) (i : Fin d) :
    (zipWith f u v).get i = f (u.get i) (v.get i) := by
  simp [get_eq_getElem]

theorem exists_eq_cons {w : Vec α (d + 1)} {a : α} {as : List α} (h : w.toList = a :: as) :
    ∃ v : Vec α d, w = cons a v ∧ v.toList = as := by
  have hlength : as.length = d := by
    have hw := w.length_toList
    rw [h, List.length_cons] at hw
    omega
  exact ⟨⟨as, hlength⟩, Vec.ext h, rfl⟩

/-- A vector is the list of its entries. -/
theorem toList_eq_ofFn (v : Vec α d) : v.toList = List.ofFn v.get :=
  congrArg toList (ext_get fun i => (get_ofFn v.get i).symm : v = ofFn v.get)

/-! ## Arithmetic -/

variable [Scalar α]

instance : Zero (Vec α d) := ⟨replicate d 0⟩

instance : Add (Vec α d) := ⟨zipWith (· + ·)⟩

instance : Sub (Vec α d) := ⟨zipWith (· - ·)⟩

/-- Every entry times one scalar, the entry being the left factor. -/
instance : HMul (Vec α d) α (Vec α d) := ⟨fun v c => v.map (· * c)⟩

/-- The inner product, summed from the left. -/
def dot (u v : Vec α d) : α :=
  total (zipWith (· * ·) u v).toList

theorem zero_def : (0 : Vec α d) = replicate d 0 := rfl

theorem add_def (u v : Vec α d) : u + v = zipWith (· + ·) u v := rfl

theorem sub_def (u v : Vec α d) : u - v = zipWith (· - ·) u v := rfl

theorem mul_def (v : Vec α d) (c : α) : v * c = v.map (· * c) := rfl

end Vec

end RidgeLogistic
