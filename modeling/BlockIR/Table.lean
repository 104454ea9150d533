/-! Association lists. A key is read at its first entry, and writing a key replaces that entry where
it stands, so a table built by `set` has each key once. -/

namespace BlockIR

abbrev Table (κ α : Type) := List (κ × α)

namespace Table

variable {κ α : Type} [DecidableEq κ]

def get? : Table κ α → κ → Option α
  | [], _ => none
  | (k, a) :: t, x => if k = x then some a else get? t x

def set : Table κ α → κ → α → Table κ α
  | [], x, b => [(x, b)]
  | (k, a) :: t, x, b => if k = x then (x, b) :: t else (k, a) :: set t x b

def erase : Table κ α → κ → Table κ α
  | [], _ => []
  | (k, a) :: t, x => if k = x then erase t x else (k, a) :: erase t x

def keys (t : Table κ α) : List κ :=
  t.map (·.1)

@[simp] theorem get?_nil (x : κ) : get? ([] : Table κ α) x = none := rfl

theorem get?_set (t : Table κ α) (x y : κ) (a : α) :
    get? (set t x a) y = if x = y then some a else get? t y := by
  induction t with
  | nil => simp [set, get?]
  | cons e t ih =>
    obtain ⟨k, b⟩ := e
    by_cases hk : k = x
    · subst hk
      by_cases hy : k = y <;> simp [set, get?, hy]
    · by_cases hy : k = y
      · subst hy
        simp [set, get?, hk, Ne.symm hk]
      · simp [set, get?, hk, hy, ih]

theorem get?_erase (t : Table κ α) (x y : κ) :
    get? (erase t x) y = if x = y then none else get? t y := by
  induction t with
  | nil => simp [erase]
  | cons e t ih =>
    obtain ⟨k, b⟩ := e
    by_cases hk : k = x
    · subst hk
      by_cases hy : k = y <;> simp_all [erase, get?]
    · by_cases hy : k = y
      · subst hy
        simp [erase, get?, hk, Ne.symm hk]
      · simp [erase, get?, hk, hy, ih]

end Table

end BlockIR
