/-!
# Tables

A table holds one entry for each of its keys. A new entry takes the place of the one its key had.

Main results: `Table.get?_insert_self` and `Table.get?_insert_of_ne`, an entry is found under its
key and changes no other.
-/

namespace PoolArbitrage

/-- Entries under keys, one each. -/
abbrev Table (κ α : Type) := List (κ × α)

namespace Table

variable {κ α : Type} [BEq κ]

def get? (m : Table κ α) (k : κ) : Option α := m.lookup k

def contains (m : Table κ α) (k : κ) : Bool := (m.get? k).isSome

def erase (m : Table κ α) (k : κ) : Table κ α := m.filter (·.1 != k)

/-- Puts an entry in place of the one its key had. -/
def insert (m : Table κ α) (k : κ) (a : α) : Table κ α := (k, a) :: m.erase k

variable [LawfulBEq κ]

@[simp] theorem get?_insert_self (m : Table κ α) (k : κ) (a : α) :
    (m.insert k a).get? k = some a := by
  simp [insert, get?]

theorem get?_erase_of_ne (m : Table κ α) {k l : κ} (h : l ≠ k) : (m.erase k).get? l = m.get? l := by
  unfold erase get?
  induction m with
  | nil => rfl
  | cons p m ih =>
    obtain ⟨j, a⟩ := p
    rw [List.filter_cons]
    by_cases hj : j = k
    · subst hj
      have hl : (l == j) = false := by simpa using h
      simp only [bne_self_eq_false, Bool.false_eq_true, if_false, List.lookup_cons, hl]
      exact ih
    · have hj' : (j != k) = true := by simpa using hj
      simp only [hj', if_true, List.lookup_cons, ih]

theorem get?_insert_of_ne (m : Table κ α) {k l : κ} (h : l ≠ k) (a : α) :
    (m.insert k a).get? l = m.get? l := by
  have hl : (l == k) = false := by simpa using h
  rw [← get?_erase_of_ne m h]
  simp [insert, get?, List.lookup_cons, hl]

end Table

end PoolArbitrage
