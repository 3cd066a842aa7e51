import Memoizer.Json.Decode

namespace Memoizer

/-- Values by id. An arena hands out ids in the order in which values are added, so an id is a position. -/
abbrev Arena (α : Type) := List α

namespace Arena

variable {α : Type}

abbrev size (a : Arena α) : Nat := a.length

abbrev nextKey (a : Arena α) : Nat := a.size

abbrev push (a : Arena α) (value : α) : Arena α := a ++ [value]

abbrev get? (a : Arena α) (key : Nat) : Option α := a[key]?

abbrev keys (a : Arena α) : List Nat := List.range a.size

def entries (a : Arena α) : List (Nat × α) := a.zipIdx.map fun p => (p.2, p.1)

theorem size_push (a : Arena α) (value : α) : (a.push value).size = a.size + 1 := List.length_append

@[simp] theorem entries_push (a : Arena α) (value : α) : (a.push value).entries = a.entries ++ [(a.nextKey, value)] := by
  simp [entries, List.zipIdx_append]

theorem lt_size_of_get? {a : Arena α} {key : Nat} {value : α} (h : a.get? key = some value) : key < a.size :=
  (List.getElem?_eq_some_iff.mp h).1

theorem get?_push_eq_some_iff {a : Arena α} {key : Nat} {value other : α} :
    (a.push value).get? key = some other ↔ a.get? key = some other ∨ key = a.nextKey ∧ value = other := by
  rcases Nat.lt_trichotomy key a.length with hlt | rfl | hgt
  · simp [List.getElem?_append_left hlt, Nat.ne_of_lt hlt]
  · simp
  · have hnone : (a.push value).length ≤ key := by rwa [List.length_append]
    simp [List.getElem?_eq_none hnone, List.getElem?_eq_none (Nat.le_of_lt hgt), Nat.ne_of_gt hgt]

theorem mem_entries_iff {a : Arena α} {key : Nat} {value : α} : (key, value) ∈ a.entries ↔ a.get? key = some value := by
  simp only [entries, List.mem_map, List.mem_zipIdx_iff_getElem?, Prod.mk.injEq, Prod.exists]
  constructor
  · rintro ⟨_, _, h, rfl, rfl⟩
    exact h
  · intro h
    exact ⟨value, key, h, rfl, rfl⟩

def ofJson (text : String) : Except Json.Fault (Arena String) := Json.decode (Json.list Json.string) text

end Arena

/-- A value for any id, the default where none was set. -/
abbrev SideTable (α : Type) := List α

namespace SideTable

variable {α : Type} [Inhabited α]

def ofLen (n : Nat) : SideTable α := List.replicate n default

def get (t : SideTable α) (key : Nat) : α := t.getD key default

def set (t : SideTable α) (key : Nat) (value : α) : SideTable α :=
  if key < t.length then List.set t key value else t ++ List.replicate (key - t.length) default ++ [value]

def modify (t : SideTable α) (key : Nat) (f : α → α) : SideTable α := t.set key (f (t.get key))

theorem getElem?_eq_get {t : SideTable α} {key : Nat} (h : key < t.length) : t[key]? = some (t.get key) := by
  simp [get, h]

theorem get_of_length_le {t : SideTable α} {key : Nat} (h : t.length ≤ key) : t.get key = default := by
  simp [get, h]

@[simp] theorem get_ofLen (n key : Nat) : (ofLen n : SideTable α).get key = default := by
  simp only [ofLen, get, List.getD_eq_getElem?_getD, List.getElem?_replicate]
  split <;> rfl

@[simp] theorem length_ofLen (n : Nat) : (ofLen n : SideTable α).length = n := List.length_replicate

@[simp] theorem get_set (t : SideTable α) (key other : Nat) (value : α) :
    (t.set key value).get other = if other = key then value else t.get other := by
  simp only [set, get, List.getD_eq_getElem?_getD]
  split
  · grind
  · simp only [List.getElem?_append, List.getElem?_replicate, List.length_append, List.length_replicate]
    grind

@[simp] theorem get_modify (t : SideTable α) (key other : Nat) (f : α → α) :
    (t.modify key f).get other = if other = key then f (t.get key) else t.get other := get_set ..

theorem length_set_of_lt {t : SideTable α} {key : Nat} (h : key < t.length) (value : α) :
    (t.set key value).length = t.length := by
  rw [set, if_pos h, List.length_set]

theorem length_modify_of_lt {t : SideTable α} {key : Nat} (h : key < t.length) (f : α → α) :
    (t.modify key f).length = t.length := length_set_of_lt h _

@[simp] theorem set_length (t : SideTable α) (value : α) : t.set t.length value = t ++ [value] := by
  simp [set]

end SideTable

end Memoizer
