import Mathlib.Data.List.Basic
import Memoizer.Proofs.Leaves
import Memoizer.Wrap

namespace Memoizer

def Expr.HasVerbatim (e : Expr) : Prop := ∃ l ∈ e.leaves {}, l.name = none

def Expr.ReadsFree (e : Expr) (name : String) : Prop := ∃ l ∈ e.leaves {}, l.name = some name ∧ name ∉ l.scope.visible

/-- The leaf is a name, and one that is bound, ignored or listed. -/
def Leaf.CoveredBy (c : Config) (deps : List String) (l : Leaf) : Prop :=
  ∃ name ∈ l.name, name ∈ l.scope.visible ∨ c.isIgnored name = true ∨ name ∈ deps

instance (e : Expr) : Decidable e.HasVerbatim := inferInstanceAs (Decidable (∃ l ∈ e.leaves {}, l.name = none))

instance (e : Expr) (name : String) : Decidable (e.ReadsFree name) :=
  inferInstanceAs (Decidable (∃ l ∈ e.leaves {}, l.name = some name ∧ name ∉ l.scope.visible))

instance (c : Config) (deps : List String) (l : Leaf) : Decidable (l.CoveredBy c deps) :=
  inferInstanceAs (Decidable (∃ name ∈ l.name, name ∈ l.scope.visible ∨ c.isIgnored name = true ∨ name ∈ deps))

theorem Expr.reads_covered_iff (e : Expr) (c : Config) (deps : List String) :
    (¬ e.HasVerbatim ∧ ∀ name, e.ReadsFree name → c.isIgnored name = false → name ∈ deps) ↔
      ∀ l ∈ e.leaves {}, l.CoveredBy c deps := by
  constructor
  · rintro ⟨htext, hfree⟩ l hl
    cases hn : l.name with
    | none => exact absurd ⟨l, hl, hn⟩ htext
    | some name =>
        refine ⟨name, hn, ?_⟩
        by_cases hscope : name ∈ l.scope.visible
        · exact .inl hscope
        · cases hi : c.isIgnored name with
          | true => exact .inr (.inl rfl)
          | false => exact .inr (.inr (hfree name ⟨l, hl, hn, hscope⟩ hi))
  · intro h
    constructor
    · rintro ⟨l, hl, hn⟩
      obtain ⟨name, hn', _⟩ := h l hl
      rw [hn] at hn'
      cases hn'
    · rintro name ⟨l, hl, hn, hscope⟩ hi
      obtain ⟨name', hn', hcov⟩ := h l hl
      rw [hn] at hn'
      cases hn'
      rcases hcov with hin | hig | hdep
      · exact absurd hin hscope
      · rw [hi] at hig
        cases hig
      · exact hdep

def Expr.wrapped (c : Config) (e : Expr) : Expr :=
  match e.wrapping c with
  | .wrap deps => memoCall c e deps
  | _ => e

theorem Declarator.init_wrap (c : Config) (d : Declarator) : (d.wrap c).value.init = d.init.map (Expr.wrapped c) := by
  obtain ⟨target, _ | init⟩ := d
  · rfl
  · rw [Declarator.wrap, Declarator.init, Option.map_some, Expr.wrapped]
    cases init.wrapping c <;> rfl

theorem value_wrapEach {α : Type} (f : α → Wrapped α) (as : List α) :
    (wrapEach f as).value = as.map fun a => (f a).value := by
  induction as with
  | nil => rfl
  | cons a as ih => rw [wrapEach, Wrapped.cons, ih, List.map_cons]

def Stmt.init? (j : Nat) : Stmt → Option Expr
  | .decl _ declarators _ => declarators[j]?.bind Declarator.init
  | _ => none

def initAt (stmts : List Stmt) (i j : Nat) : Option Expr := stmts[i]?.bind (Stmt.init? j)

theorem Stmt.init?_wrap (c : Config) (s : Stmt) (j : Nat) :
    (s.wrap c).value.init? j = (s.init? j).map (Expr.wrapped c) := by
  cases s with
  | decl kind declarators place =>
      rw [Stmt.wrap, Wrapped.map, Stmt.init?, Stmt.init?, value_wrapEach, List.getElem?_map]
      cases declarators[j]? with
      | none => rfl
      | some d => exact d.init_wrap c
  | ret | expr | verbatim => rfl

theorem initAt_wrapInitializers (c : Config) (stmts : List Stmt) (i j : Nat) :
    initAt (wrapInitializers c stmts).value i j = (initAt stmts i j).map (Expr.wrapped c) := by
  rw [wrapInitializers, initAt, initAt, value_wrapEach, List.getElem?_map]
  cases stmts[i]? with
  | none => rfl
  | some s => exact s.init?_wrap c j

theorem memoCall_ne (c : Config) (e : Expr) (deps : List String) : memoCall c e deps ≠ e := by
  intro h
  have hsize := congrArg sizeOf h
  simp only [memoCall, Expr.call.sizeOf_spec, List.cons.sizeOf_spec, Expr.arrow.sizeOf_spec,
    ArrowBody.expr.sizeOf_spec] at hsize
  omega

theorem memoCall_inj {c : Config} {e e' : Expr} {deps deps' : List String} (h : memoCall c e deps = memoCall c e' deps') :
    e = e' ∧ deps = deps' := by
  simp only [memoCall, Expr.call.injEq, List.cons.injEq, Expr.arrow.injEq, ArrowBody.expr.injEq, Expr.array.injEq,
    true_and, and_true] at h
  exact ⟨h.1, List.map_injective_iff.mpr (fun a b hab => by simpa using hab) h.2⟩

theorem wrapping_of_wrapped_eq {c : Config} {e : Expr} {deps : List String} (h : e.wrapped c = memoCall c e deps) :
    e.wrapping c = .wrap deps := by
  rw [Expr.wrapped] at h
  split at h
  next deps' hw =>
    rw [hw, (memoCall_inj h).2]
  next => exact absurd h.symm (memoCall_ne c e deps)

theorem scan_of_wrapping_eq {c : Config} {e : Expr} {deps : List String} (h : e.wrapping c = .wrap deps) :
    (e.scan c {}).unreadable = false ∧ (e.scan c {}).found = deps := by
  rw [Expr.wrapping] at h
  split at h
  · dsimp only at h
    split at h
    · cases h
    next hread =>
      split at h
      · cases h
      · cases h
        exact ⟨by simpa using hread, rfl⟩
  · cases h

theorem coveredBy_of_wrapping {c : Config} {e : Expr} {deps : List String} (h : e.wrapping c = .wrap deps) {l : Leaf}
    (hl : l ∈ e.leaves {}) (hout : l.inTarget = false) : l.CoveredBy c deps := by
  obtain ⟨hread, hfound⟩ := scan_of_wrapping_eq h
  cases hn : l.name with
  | none =>
      have hblocks : (e.leaves {}).any Leaf.blocks = true := List.any_eq_true.mpr ⟨l, hl, by simp [Leaf.blocks, hout, hn]⟩
      rw [(e.reads_scan c).unreadable_eq {} {}, hblocks] at hread
      cases hread
  | some name =>
      refine ⟨name, hn, ?_⟩
      by_cases hscope : name ∈ l.scope.visible
      · exact .inl hscope
      · have hbound : name ∉ l.scope.bound := fun hin => hscope ((Expr.nested_leaf hl hout).bound_subset hin)
        cases hignored : c.isIgnored name with
        | true => exact .inr (.inl rfl)
        | false =>
            have hlisted : name ∈ e.freeNames c := Expr.mem_freeNames_iff.mpr ⟨hignored, l, hl, hout, hn, hbound⟩
            rw [Expr.freeNames, hfound] at hlisted
            exact .inr (.inr hlisted)

/-- The dependencies of a wrapped initializer cover all of it exactly if they cover what the targets of
declarations within it hold; all else they cover. -/
theorem wrapped_reads_covered_iff (c : Config) (stmts : List Stmt) (i j : Nat) (e : Expr) (deps : List String)
    (hold : initAt stmts i j = some e)
    (hnew : initAt (wrapInitializers c stmts).value i j = some (memoCall c e deps)) :
    (∀ l ∈ e.leaves {}, l.inTarget = false → l.CoveredBy c deps) ∧
      ((¬ e.HasVerbatim ∧ ∀ name, e.ReadsFree name → c.isIgnored name = false → name ∈ deps) ↔
        ∀ l ∈ e.leaves {}, l.inTarget = true → l.CoveredBy c deps) := by
  rw [initAt_wrapInitializers, hold, Option.map_some, Option.some.injEq] at hnew
  have hcov (l : Leaf) (hl : l ∈ e.leaves {}) (hout : l.inTarget = false) : l.CoveredBy c deps :=
    coveredBy_of_wrapping (wrapping_of_wrapped_eq hnew) hl hout
  refine ⟨hcov, (e.reads_covered_iff c deps).trans ?_⟩
  constructor
  · exact fun h l hl _ => h l hl
  · intro h l hl
    cases hin : l.inTarget with
    | true => exact h l hl hin
    | false => exact hcov l hl hin

/-- `a.map((x = d) => { const target = x; return y; })`. -/
def mapThrough (target : Pattern) : Expr :=
  .call (.member (.ident "a") (.name "map"))
    [.arrow [.assign (.ident "x") (.ident "d")]
      (.block [.decl .const [.mk target (some (.ident "x"))] none, .ret (some (.ident "y")) none]) false]

def declaring (e : Expr) : List Stmt := [.decl .const [.mk (.ident "c") (some e)] none]

theorem wrapped_plain_target :
    initAt (wrapInitializers {} (declaring (mapThrough (.ident "y")))).value 0 0 =
        some (memoCall {} (mapThrough (.ident "y")) ["a", "d"]) ∧
      ¬ (mapThrough (.ident "y")).HasVerbatim ∧
      ∀ name, (mapThrough (.ident "y")).ReadsFree name → Config.isIgnored {} name = false → name ∈ ["a", "d"] := by
  have hnew : initAt (wrapInitializers {} (declaring (mapThrough (.ident "y")))).value 0 0 =
      some (memoCall {} (mapThrough (.ident "y")) ["a", "d"]) := by rfl
  refine ⟨hnew, (wrapped_reads_covered_iff {} _ 0 0 _ _ rfl hnew).2.mpr ?_⟩
  decide

def firstOr (value : Expr) : Pattern := .array [some (.assign (.ident "y") value)]

/-- A name in a default of the target is not listed, and verbatim text there does not keep the initializer
from being wrapped. -/
theorem wrapped_default_in_target :
    (initAt (wrapInitializers {} (declaring (mapThrough (firstOr (.ident "q"))))).value 0 0 =
        some (memoCall {} (mapThrough (firstOr (.ident "q"))) ["a", "d"]) ∧
      (mapThrough (firstOr (.ident "q"))).ReadsFree "q" ∧ Config.isIgnored {} "q" = false ∧ "q" ∉ ["a", "d"]) ∧
    (initAt (wrapInitializers {} (declaring (mapThrough (firstOr (.verbatim "<b/>"))))).value 0 0 =
        some (memoCall {} (mapThrough (firstOr (.verbatim "<b/>"))) ["a", "d"]) ∧
      (mapThrough (firstOr (.verbatim "<b/>"))).HasVerbatim) := by
  refine ⟨⟨rfl, ?_, ?_, ?_⟩, rfl, ?_⟩ <;> decide

end Memoizer
