import Mathlib.Data.List.Forall2
import Mathlib.Logic.Relation
import Memoizer.Proofs.RoundTrip

namespace Memoizer

/-- The two write the same key: behind a dot or in brackets, and with either of the two zeros. -/
inductive MemberProp.SameKey : MemberProp → MemberProp → Prop
  | refl (p : MemberProp) : SameKey p p
  | quoted (key : String) : SameKey (.name key) (.computed (.literal (.string key)))
  | dotted (key : String) : SameKey (.computed (.literal (.string key))) (.name key)
  | zero {x y : Number} (hx : x.wholePart? = some 0) (hy : y.wholePart? = some 0) :
      SameKey (.computed (.literal (.number x))) (.computed (.literal (.number y)))

theorem MemberProp.sameKey_number_iff {x y : Number} :
    SameKey (.computed (.literal (.number x))) (.computed (.literal (.number y))) ↔
      x = y ∨ x.wholePart? = some 0 ∧ y.wholePart? = some 0 := by
  constructor
  · intro h
    cases h with
    | refl => exact .inl rfl
    | zero hx hy => exact .inr ⟨hx, hy⟩
  · rintro (rfl | ⟨hx, hy⟩)
    · exact .refl _
    · exact .zero hx hy

/-- A key comes back the same, unless it is a number beyond what an index can hold. -/
inductive MemberProp.ComesBackAs : MemberProp → MemberProp → Prop
  | same {p q : MemberProp} (h : p.SameKey q) : ComesBackAs p q
  | large {x : Number} {n : Nat} (hsign : x.isNegative = false) (hx : x.wholePart? = some n) (hn : Number.twoPow 64 < n)
      (y : Number) : ComesBackAs (.computed (.literal (.number x))) (.computed (.literal (.number y)))

mutual

/-- The second expression is the first one but for names, which are replaced, for keys, and for the flag that says
whether a property is written in short. -/
inductive Expr.EqUpTo (keys : MemberProp → MemberProp → Prop) (names : String → String) : Expr → Expr → Prop
  | ident (name : String) : Expr.EqUpTo keys names (.ident name) (.ident (names name))
  | whole {e : Expr} (hwhole : e.isWhole = true) (hname : e.name? = none) : Expr.EqUpTo keys names e e
  | member {object object' : Expr} {p p' : MemberProp} (hobject : Expr.EqUpTo keys names object object')
      (hkey : keys p p') : Expr.EqUpTo keys names (.member object p) (.member object' p')
  | call {callee callee' : Expr} {args args' : List Expr} (hcallee : Expr.EqUpTo keys names callee callee')
      (hargs : List.Forall₂ (Expr.EqUpTo keys names) args args') :
      Expr.EqUpTo keys names (.call callee args) (.call callee' args')
  | object {members members' : List ObjectMember}
      (hmembers : List.Forall₂ (ObjectMember.EqUpTo keys names) members members') :
      Expr.EqUpTo keys names (.object members) (.object members')

inductive ObjectMember.EqUpTo (keys : MemberProp → MemberProp → Prop) (names : String → String) :
    ObjectMember → ObjectMember → Prop
  | property (key : PropKey) {value value' : Expr} (hvalue : Expr.EqUpTo keys names value value')
      (shorthand shorthand' : Bool) :
      ObjectMember.EqUpTo keys names (.property key value shorthand) (.property key value' shorthand')

end

def ObjectMember.value? : ObjectMember → Option Expr
  | .property _ value _ => some value
  | _ => none

def Expr.operands : Expr → List Expr
  | .member base property => if property.resolve.isSome then [base] else []
  | .call (.member base property) args => (if property.resolve.isSome then base else .member base property) :: args
  | .call callee args => callee :: args
  | .object members => if members.all ObjectMember.hasIdentKey then members.filterMap ObjectMember.value? else []
  | _ => []

namespace Expr

/-- The other expression is this one or one that it is computed from, over any number of steps. -/
def Contains : Expr → Expr → Prop := Relation.ReflTransGen fun e part => part ∈ e.operands

theorem operands_member {object : Expr} {property : MemberProp} {p : Property} (hp : property.resolve = some p) :
    (Expr.member object property).operands = [object] := by
  rw [operands, hp]
  rfl

theorem operands_method {object : Expr} {property : MemberProp} {p : Property} (hp : property.resolve = some p)
    (args : List Expr) : (Expr.call (.member object property) args).operands = object :: args := by
  rw [operands, hp]
  rfl

theorem operands_call {callee : Expr} (h : ∀ object property, callee = .member object property → property.resolve = none)
    (args : List Expr) : (Expr.call callee args).operands = callee :: args := by
  cases callee with
  | member object property =>
      rw [operands, h object property rfl]
      rfl
  | _ => rfl

theorem operands_object {members : List ObjectMember} (h : members.all ObjectMember.hasIdentKey = true) :
    (Expr.object members).operands = members.filterMap ObjectMember.value? := by
  rw [operands, if_pos h]

theorem operands_of_isWhole {e : Expr} (h : e.isWhole = true) : e.operands = [] := by
  cases e with
  | member object property =>
      rw [isWhole, Option.isNone_iff_eq_none] at h
      rw [operands, h]
      rfl
  | call => cases h
  | object members =>
      rw [isWhole, Bool.not_eq_true'] at h
      rw [operands, h]
      rfl
  | _ => rfl

theorem Contains.mem_of_closed {e part : Expr} {parts : List Expr} (h : e.Contains part) (he : e ∈ parts)
    (hparts : ∀ e ∈ parts, ∀ operand ∈ e.operands, operand ∈ parts) : part ∈ parts := by
  induction h with
  | refl => exact he
  | tail _ hoperand ih => exact hparts _ ih _ hoperand

end Expr

namespace Expr.EqUpTo

variable {keys : MemberProp → MemberProp → Prop} {names : String → String} {e' : Expr}

theorem ident_iff {name : String} : (Expr.ident name).EqUpTo keys names e' ↔ e' = .ident (names name) := by
  constructor
  · intro h
    cases h with
    | ident => rfl
    | whole _ hname => cases hname
  · rintro rfl
    exact .ident name

theorem member_iff {base : Expr} {p : MemberProp} {q : Property} (hp : p.resolve = some q) :
    (Expr.member base p).EqUpTo keys names e' ↔ ∃ base' p', e' = .member base' p' ∧ base.EqUpTo keys names base' ∧ keys p p' := by
  constructor
  · intro h
    cases h with
    | whole hwhole =>
        rw [isWhole, hp] at hwhole
        cases hwhole
    | member hbase hkey => exact ⟨_, _, rfl, hbase, hkey⟩
  · rintro ⟨base', p', rfl, hbase, hkey⟩
    exact .member hbase hkey

end Expr.EqUpTo

namespace Number

theorem ofNat_largest : ofNat (twoPow 64 - 1) = ofNat (twoPow 64) := by decide +kernel

theorem index?_cases {x : Number} {i : Nat} (h : x.index? = some i) :
    i = 0 ∧ x.wholePart? = some 0 ∨
      x.isNegative = false ∧ ∃ n, x.wholePart? = some n ∧ i = min n (twoPow 64 - 1) := by
  rw [index?] at h
  split at h
  next hzero => exact .inl ⟨(Option.some.inj h).symm, hzero⟩
  next n _ hwhole =>
    split at h
    · cases h
    next hsign => exact .inr ⟨by simpa using hsign, n, hwhole, (Option.some.inj h).symm⟩
  next => cases h

theorem comesBackAs_ofNat {x : Number} {i : Nat} (h : x.index? = some i) :
    MemberProp.ComesBackAs (.computed (.literal (.number x))) (.computed (.literal (.number (ofNat i)))) := by
  rcases index?_cases h with ⟨rfl, hzero⟩ | ⟨hsign, n, hwhole, rfl⟩
  · exact .same (.zero hzero (by decide +kernel))
  · have hsame : ofNat n = x := ofNat_eq_of_wholePart hsign hwhole
    rcases Nat.lt_trichotomy n (twoPow 64) with hlt | rfl | hgt
    · rw [Nat.min_eq_left (Nat.le_sub_one_of_lt hlt), hsame]
      exact .same (.refl _)
    · rw [Nat.min_eq_right (Nat.sub_le _ _), ofNat_largest, hsame]
      exact .same (.refl _)
    · exact .large hsign hwhole hgt _

end Number

theorem MemberProp.comesBackAs_accessOf {property : MemberProp} {p : Property} (h : property.resolve = some p)
    (object : Expr) : ∃ property', p.accessOf object = .member object property' ∧ property.ComesBackAs property' := by
  fun_cases MemberProp.resolve property with
  | case1 key =>
      cases h
      by_cases hname : Text.isName key = true
      · exact ⟨_, if_pos hname, .same (.refl _)⟩
      · exact ⟨_, if_neg hname, .same (.quoted key)⟩
  | case2 key =>
      cases h
      by_cases hname : Text.isName key = true
      · exact ⟨_, if_pos hname, .same (.dotted key)⟩
      · exact ⟨_, if_neg hname, .same (.refl _)⟩
  | case3 x =>
      obtain ⟨i, hi, rfl⟩ := Option.map_eq_some_iff.mp h
      exact ⟨_, rfl, Number.comesBackAs_ofNat hi⟩
  | case4 => simp_all [MemberProp.resolve]

end Memoizer
