import Memoizer.Proofs.MemoDecl

namespace Memoizer

namespace Leaf

def IsFree (l : Leaf) (name : String) : Prop := l.name = some name ∧ name ∉ l.scope.anywhere

/-- A function around binds the name, but only behind this place. -/
def IsEarly (l : Leaf) (name : String) : Prop :=
  l.name = some name ∧ name ∈ l.scope.anywhere ∧ name ∉ l.scope.bound

instance (l : Leaf) (name : String) : Decidable (l.IsFree name) :=
  inferInstanceAs (Decidable (l.name = some name ∧ name ∉ l.scope.anywhere))

instance (l : Leaf) (name : String) : Decidable (l.IsEarly name) :=
  inferInstanceAs (Decidable (l.name = some name ∧ name ∈ l.scope.anywhere ∧ name ∉ l.scope.bound))

theorem isFree_or_isEarly_iff {l : Leaf} (h : l.scope.Nested) {name : String} :
    l.IsFree name ∨ l.IsEarly name ↔ l.name = some name ∧ name ∉ l.scope.bound := by
  constructor
  · rintro (⟨hname, hfree⟩ | ⟨hname, -, hbound⟩)
    · exact ⟨hname, fun hbound => hfree (h.visible_subset (h.bound_subset hbound))⟩
    · exact ⟨hname, hbound⟩
  · rintro ⟨hname, hbound⟩
    by_cases hscope : name ∈ l.scope.anywhere
    · exact .inr ⟨hname, hscope, hbound⟩
    · exact .inl ⟨hname, hscope⟩

end Leaf

namespace Expr

def OccursFree (e : Expr) (name : String) : Prop := ∃ l ∈ e.leaves {}, l.IsFree name

def ReadsEarly (e : Expr) (name : String) : Prop := ∃ l ∈ e.leaves {}, l.inTarget = false ∧ l.IsEarly name

instance (e : Expr) (name : String) : Decidable (e.OccursFree name) :=
  inferInstanceAs (Decidable (∃ l ∈ e.leaves {}, l.IsFree name))

theorem freeNames_eq (e : Expr) (c : Config) : e.freeNames c = firstOccurrences (Leaf.escaping c (e.leaves {})) :=
  (e.reads_scan c).found_eq {}

/-- What is listed for an expression are the names that it reads from outside and those that it reads ahead of their
binding. So all of them occur free exactly if those that are read early do so at another place. -/
theorem freeNames_in_scope_iff (e : Expr) (c : Config) :
    (∀ name, name ∈ e.freeNames c ↔ c.isIgnored name = false ∧
      ∃ l ∈ e.leaves {}, l.inTarget = false ∧ (l.IsFree name ∨ l.IsEarly name)) ∧
    ((∀ name ∈ e.freeNames c, e.OccursFree name) ↔
      ∀ name, c.isIgnored name = false → e.ReadsEarly name → e.OccursFree name) := by
  have hlisted (name : String) : name ∈ e.freeNames c ↔ c.isIgnored name = false ∧
      ∃ l ∈ e.leaves {}, l.inTarget = false ∧ (l.IsFree name ∨ l.IsEarly name) := by
    rw [mem_freeNames_iff]
    refine and_congr_right fun _ => exists_congr fun l => and_congr_right fun hl => and_congr_right fun hout => ?_
    exact (Leaf.isFree_or_isEarly_iff (nested_leaf hl hout)).symm
  refine ⟨hlisted, ?_, ?_⟩
  · rintro h name hignored ⟨l, hl, hout, hearly⟩
    exact h name ((hlisted name).mpr ⟨hignored, l, hl, hout, .inr hearly⟩)
  · intro h name hmem
    obtain ⟨hignored, l, hl, hout, hfree | hearly⟩ := (hlisted name).mp hmem
    · exact ⟨l, hl, hfree⟩
    · exact h name hignored ⟨l, hl, hout, hearly⟩

end Expr

def mapping (f : Expr) : Expr := .call (.member (.ident "a") (.name "map")) [f]

/-- `({ x, y = x }) => y`. -/
def defaultsToSibling : Expr :=
  .arrow [.object [.mk (.ident "x") (.ident "x") true, .mk (.ident "y") (.assign (.ident "y") (.ident "x")) true] none]
    (.expr (.ident "y")) false

/-- `x => { const go = n => go(n); return go(x); }`. -/
def callsItself : Expr :=
  .arrow [.ident "x"] (.block
    [.decl .const [.mk (.ident "go") (some (.arrow [.ident "n"] (.expr (.call (.ident "go") [.ident "n"])) false))] none,
      .ret (some (.call (.ident "go") [.ident "x"])) none]) false

/-- The default of a destructured property names another one, and a local function calls itself: the dependencies of the
wrapped initializer hold names that exist only within it. -/
theorem lists_name_from_within :
    (initAt (wrapInitializers {} (declaring (mapping defaultsToSibling))).value 0 0 =
        some (memoCall {} (mapping defaultsToSibling) ["a", "x"]) ∧
      (mapping defaultsToSibling).freeNames {} = ["a", "x"] ∧ ¬ (mapping defaultsToSibling).OccursFree "x") ∧
    (initAt (wrapInitializers {} (declaring (mapping callsItself))).value 0 0 =
        some (memoCall {} (mapping callsItself) ["a", "go"]) ∧
      (mapping callsItself).freeNames {} = ["a", "go"] ∧ ¬ (mapping callsItself).OccursFree "go") := by
  refine ⟨⟨rfl, rfl, ?_⟩, rfl, rfl, ?_⟩ <;> decide

end Memoizer
