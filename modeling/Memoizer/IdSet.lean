namespace Memoizer.IdSet

-- A set of ids is an ascending list without repetition.
def insert (x : Nat) : List Nat → List Nat
  | [] => [x]
  | y :: ys => if x < y then x :: y :: ys else if x = y then y :: ys else y :: insert x ys

def ofList (xs : List Nat) : List Nat := xs.foldl (fun s x => insert x s) []

@[simp] theorem mem_insert {x y : Nat} {s : List Nat} : y ∈ insert x s ↔ y = x ∨ y ∈ s := by
  induction s with
  | nil => simp [insert]
  | cons z zs ih => grind [insert]

theorem insert_insert (x : Nat) (s : List Nat) : insert x (insert x s) = insert x s := by
  induction s with
  | nil => simp [insert]
  | cons y ys ih => grind [insert]

theorem mem_foldl_insert {y : Nat} {xs s : List Nat} :
    y ∈ xs.foldl (fun s x => insert x s) s ↔ y ∈ xs ∨ y ∈ s := by
  induction xs generalizing s with
  | nil => simp
  | cons x xs ih => simp only [List.foldl_cons, ih, mem_insert, List.mem_cons]; grind

@[simp] theorem mem_ofList {y : Nat} {xs : List Nat} : y ∈ ofList xs ↔ y ∈ xs := by
  simp [ofList, mem_foldl_insert]

theorem pairwise_insert {x : Nat} {s : List Nat} (h : s.Pairwise (· < ·)) : (insert x s).Pairwise (· < ·) := by
  induction s with
  | nil => simp [insert]
  | cons y ys ih => grind [insert, mem_insert, List.pairwise_cons]

theorem pairwise_ofList (xs : List Nat) : (ofList xs).Pairwise (· < ·) := by
  suffices h : ∀ s : List Nat, s.Pairwise (· < ·) → (xs.foldl (fun s x => insert x s) s).Pairwise (· < ·) from
    h [] .nil
  induction xs with
  | nil => exact fun _ h => h
  | cons x xs ih => exact fun s h => ih _ (pairwise_insert h)

end Memoizer.IdSet
