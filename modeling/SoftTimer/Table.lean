/-!
# Tables of fixed size

A table holds one entry for each of `n` keys.  It is used for the cells of all timers and for the
states of all schedulers.

Main results:

- Theorems `Table.get_set_self` and `Table.get_set_of_ne`: a write changes one entry.
- Theorem `Table.ext`: a table is determined by its entries.
-/

namespace SoftTimer

/-- One entry for each key below `n`. -/
structure Table (n : Nat) (α : Type) where
  /-- The entries in the order of their keys. -/
  entries : Vector α n
deriving DecidableEq

namespace Table

variable {n : Nat} {α : Type}

/-- The entry of a key. -/
def get (t : Table n α) (i : Fin n) : α :=
  t.entries[i.val]

/-- Put an entry in place of the one of a key. -/
def set (t : Table n α) (i : Fin n) (a : α) : Table n α :=
  ⟨t.entries.set i.val a⟩

/-- Change the entry of a key. -/
def modify (t : Table n α) (i : Fin n) (f : α → α) : Table n α :=
  t.set i (f (t.get i))

/-- The table with given entries. -/
def ofFn (f : Fin n → α) : Table n α :=
  ⟨Vector.ofFn f⟩

/-- The same entry for every key. -/
def fill (a : α) : Table n α :=
  ofFn fun _ => a

/-- Change every entry. -/
def map {β : Type} (f : α → β) (t : Table n α) : Table n β :=
  ⟨t.entries.map f⟩

/-- The entries in the order of their keys. -/
def toList (t : Table n α) : List α :=
  t.entries.toList

/-- Tables with equal entries are equal. -/
theorem ext {t u : Table n α} (h : ∀ i, t.get i = u.get i) : t = u := by
  obtain ⟨t⟩ := t
  obtain ⟨u⟩ := u
  congr 1
  exact Vector.ext fun i hi => h ⟨i, hi⟩

@[simp]
theorem get_ofFn (f : Fin n → α) (i : Fin n) : (ofFn f).get i = f i := by
  simp [get, ofFn]

@[simp]
theorem get_fill (a : α) (i : Fin n) : (fill a : Table n α).get i = a :=
  get_ofFn _ i

@[simp]
theorem get_map {β : Type} (f : α → β) (t : Table n α) (i : Fin n) :
    (t.map f).get i = f (t.get i) := by
  simp [get, map]

@[simp]
theorem get_set_self (t : Table n α) (i : Fin n) (a : α) : (t.set i a).get i = a := by
  simp [get, set]

/-- Setting an entry leaves the others as they are. -/
theorem get_set_of_ne (t : Table n α) {i j : Fin n} (h : j ≠ i) (a : α) :
    (t.set i a).get j = t.get j := by
  have hne : i.val ≠ j.val := fun heq => h (Fin.ext heq.symm)
  simp [get, set, Vector.getElem_set_ne, hne]

@[simp]
theorem get_modify_self (t : Table n α) (i : Fin n) (f : α → α) :
    (t.modify i f).get i = f (t.get i) :=
  get_set_self t i _

/-- Modifying an entry leaves the others as they are. -/
theorem get_modify_of_ne (t : Table n α) {i j : Fin n} (h : j ≠ i) (f : α → α) :
    (t.modify i f).get j = t.get j :=
  get_set_of_ne t h _

/-- The entries of a table after one of them was set. -/
theorem get_set (t : Table n α) (i j : Fin n) (a : α) :
    (t.set i a).get j = if j = i then a else t.get j := by
  split
  · next h => rw [h, get_set_self]
  · next h => rw [get_set_of_ne t h]

/-- The entries of a table after one of them was modified. -/
theorem get_modify (t : Table n α) (i j : Fin n) (f : α → α) :
    (t.modify i f).get j = if j = i then f (t.get i) else t.get j :=
  get_set t i j _

/-- What a change keeps of every entry is kept. -/
theorem apply_get_modify {β : Type} {φ : α → β} {f : α → α} (h : ∀ a, φ (f a) = φ a)
    (t : Table n α) (i j : Fin n) : φ ((t.modify i f).get j) = φ (t.get j) := by
  rw [get_modify]
  split
  · next heq => rw [h, heq]
  · rfl

end Table
end SoftTimer
