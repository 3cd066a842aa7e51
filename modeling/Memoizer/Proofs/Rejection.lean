import Mathlib.Logic.Relation
import Memoizer.Proofs.LoweringSteps
import Memoizer.Proofs.Segments

namespace Memoizer

open Lower

def PatternProp.hasNameKey : PatternProp → Bool
  | .mk (.ident _) _ _ => true
  | _ => false

namespace Pattern

/-- The pattern to which a parameter hands its value on: behind a default, behind dots, or for the rest of an object.
Neither the elements of an array nor the values of properties count. -/
def next? : Pattern → Option Pattern
  | .assign target _ => some target
  | .rest target => some target
  | .object _ others => others
  | .ident _ => none
  | .array _ => none

/-- The parameter reaches an object pattern with a key that is no name. -/
def HasOddKey (p : Pattern) : Prop :=
  ∃ props others, Relation.ReflTransGen (fun p q => p.next? = some q) p (.object props others) ∧
    ∃ prop ∈ props, prop.hasNameKey = false

theorem hasOddKey_iff (p : Pattern) : p.HasOddKey ↔
    (∃ props others, p = .object props others ∧ ∃ prop ∈ props, prop.hasNameKey = false) ∨
      ∃ q, p.next? = some q ∧ q.HasOddKey := by
  constructor
  · rintro ⟨props, others, hreach, hodd⟩
    rcases hreach.cases_head with rfl | ⟨q, hq, hreach⟩
    · exact .inl ⟨props, others, rfl, hodd⟩
    · exact .inr ⟨q, hq, props, others, hreach, hodd⟩
  · rintro (⟨props, others, rfl, hodd⟩ | ⟨q, hq, props, others, hreach, hodd⟩)
    · exact ⟨props, others, .refl, hodd⟩
    · exact ⟨props, others, .head hq hreach, hodd⟩

end Pattern

def Stmt.Initialized : Stmt → Prop
  | .decl _ declarators _ => ∀ d ∈ declarators, d.init.isSome = true
  | _ => True

theorem Stmt.not_initialized_iff {s : Stmt} :
    ¬ s.Initialized ↔ ∃ kind ds place, s = .decl kind ds place ∧ ∃ d ∈ ds, d.init = none := by
  cases s with
  | decl kind ds place => simp [Initialized]
  | ret | expr | verbatim => simp [Initialized]

namespace Lower

/-- Wherever it starts, the run ends well exactly if the condition holds. -/
def Accepts {α : Type} (m : Lower α) (p : Prop) : Prop := ∀ s, (∃ a t, m s = .ok a t) ↔ p

section Accepts

variable {α β : Type} {m : Lower α} {k : α → Lower β} {p q : Prop}

theorem Accepts.imp (h : Accepts m p) (hpq : p ↔ q) : Accepts m q := fun s => (h s).trans hpq

theorem Accepts.bind (hm : Accepts m p) (hk : ∀ a, Accepts (k a) q) : Accepts (m >>= k) (p ∧ q) := by
  intro s
  constructor
  · rintro ⟨b, u, h⟩
    obtain ⟨a, t, hfirst, hsecond⟩ := bind_eq_ok h
    exact ⟨(hm s).mp ⟨a, t, hfirst⟩, (hk a t).mp ⟨b, u, hsecond⟩⟩
  · rintro ⟨hp, hq⟩
    obtain ⟨a, t, hfirst⟩ := (hm s).mpr hp
    obtain ⟨b, u, hsecond⟩ := (hk a t).mpr hq
    exact ⟨b, u, (bind_ok hfirst).trans hsecond⟩

theorem Accepts.after (hm : Accepts m True) (hk : ∀ a, Accepts (k a) q) : Accepts (m >>= k) q :=
  (hm.bind hk).imp (by rw [true_and])

theorem Gives.accepts {emits : Op → Prop} {ids : α → List InstId} (h : Gives emits [] m ids) : Accepts m True := by
  intro s
  obtain ⟨a, t, ht, _⟩ := h s (List.forall_mem_nil _)
  exact iff_true_intro ⟨a, t, ht⟩

theorem accepts_pure (a : α) : Accepts (pure a) True := fun s => iff_true_intro ⟨a, s, rfl⟩

theorem accepts_fail (cause : Cause) : Accepts (fail cause) False := by
  intro s
  refine iff_false_intro ?_
  rintro ⟨_, t, h⟩
  cases h

theorem accepts_stamp (place : Option Place) : Accepts (stamp place) True := fun _ => iff_true_intro ⟨(), _, rfl⟩

theorem accepts_param (name : String) : Accepts (emit (.param name)) True := by
  have h : Gives (fun _ => True) [] (emit (.param name)) ([·]) := gives_param (fun _ => trivial) name
  exact h.accepts

end Accepts

end Lower

theorem accepts_lowerNames (names : List String) : Accepts (lowerNames names) True := by
  induction names with
  | nil => exact accepts_pure ()
  | cons name names ih => exact (accepts_param name).after fun _ => ih

theorem PatternProp.accepts_lowerParams (props : List PatternProp) :
    Accepts (PatternProp.lowerParams props) (¬ ∃ prop ∈ props, prop.hasNameKey = false) := by
  induction props with
  | nil => exact (accepts_pure ()).imp (by simp)
  | cons prop props ih =>
      obtain ⟨key, value, shorthand⟩ := prop
      cases key with
      | ident key => exact ((accepts_param _).after fun _ => ih).imp (by simp [hasNameKey])
      | string | number | computed => exact (accepts_fail .parameterKey).imp (by simp [hasNameKey])

theorem Pattern.accepts_lowerParam (p : Pattern) : Accepts p.lowerParam (¬ p.HasOddKey) := by
  fun_induction Pattern.lowerParam p with
  | case1 name =>
      refine ((accepts_param name).after fun _ => accepts_pure ()).imp ?_
      simp [hasOddKey_iff (.ident name), next?]
  | case2 target value ih => exact ih.imp (by simp [hasOddKey_iff (.assign target value), next?])
  | case3 target ih => exact ih.imp (by simp [hasOddKey_iff (.rest target), next?])
  | case4 props =>
      refine (PatternProp.accepts_lowerParams props).imp ?_
      simp [hasOddKey_iff (.object props none), next?]
  | case5 props others ih =>
      refine ((PatternProp.accepts_lowerParams props).bind fun _ => ih).imp ?_
      simp [hasOddKey_iff (.object props (some others)), next?]
  | case6 elems => exact (accepts_lowerNames _).imp (by simp [hasOddKey_iff (.array elems), next?])

theorem Pattern.accepts_lowerParams (params : List Pattern) :
    Accepts (Pattern.lowerParams params) (∀ p ∈ params, ¬ p.HasOddKey) := by
  induction params with
  | nil => exact (accepts_pure ()).imp (iff_of_true trivial (List.forall_mem_nil _))
  | cons p params ih => exact (p.accepts_lowerParam.bind fun _ => ih).imp (by rw [List.forall_mem_cons])

theorem Declarator.accepts_lower (kind : DeclKind) (place : Option Place) (d : Declarator) :
    Accepts (d.lower kind place) (d.init.isSome = true) := by
  obtain ⟨target, init⟩ := d
  cases init with
  | none => exact (accepts_fail _).imp (by simp [Declarator.init])
  | some init =>
      have hlower : Gives (fun _ => True) [] (Declarator.lower kind place (.mk target (some init))) fun _ => [] :=
        Declarator.gives_lower (fun _ _ => trivial) kind place (fun _ _ => trivial) init
      exact hlower.accepts.imp (by simp [Declarator.init])

theorem Declarator.accepts_lowerAll (kind : DeclKind) (place : Option Place) (ds : List Declarator) :
    Accepts (Declarator.lowerAll kind place ds) (∀ d ∈ ds, d.init.isSome = true) := by
  induction ds with
  | nil => exact (accepts_pure ()).imp (iff_of_true trivial (List.forall_mem_nil _))
  | cons d ds ih => exact ((d.accepts_lower kind place).bind fun _ => ih).imp (by rw [List.forall_mem_cons])

theorem Stmt.accepts_lower (s : Stmt) : Accepts s.lower s.Initialized := by
  have hvalue (e : Expr) : Gives (fun _ => True) [] e.lower ([·]) := e.gives_lower fun _ _ => trivial
  have hbare : Gives (fun _ => True) [] (emit (.ret none)) ([·]) := .emit trivial (by simp [Op.operands])
  refine (accepts_stamp s.place).after fun _ => ?_
  cases s with
  | decl kind declarators place => exact Declarator.accepts_lowerAll kind place declarators
  | ret value place =>
      cases value with
      | none => exact hbare.discard.accepts
      | some value =>
          refine Gives.accepts ((hvalue value).bind fun id => Gives.discard (Gives.emit trivial ?_))
          simp [Op.operands]
  | expr value place => exact (hvalue value).discard.accepts
  | verbatim kind text place => exact (gives_unsupported (fun _ _ => trivial) kind none place).discard.accepts

theorem Stmt.accepts_lowerAll (stmts : List Stmt) :
    Accepts (Stmt.lowerAll stmts) (∀ stmt ∈ stmts, stmt.Initialized) := by
  induction stmts with
  | nil => exact (accepts_pure ()).imp (iff_of_true trivial (List.forall_mem_nil _))
  | cons s stmts ih => exact (s.accepts_lower.bind fun _ => ih).imp (by rw [List.forall_mem_cons])

theorem Function.accepts_lowerInto (f : Function) :
    Accepts f.lowerInto ((∀ p ∈ f.params, ¬ p.HasOddKey) ∧ ∀ stmt ∈ f.body, stmt.Initialized) := by
  refine (Pattern.accepts_lowerParams f.params).bind fun _ => ?_
  exact ((Stmt.accepts_lowerAll f.body).bind fun _ _ => iff_true_intro ⟨(), _, rfl⟩).imp (by rw [and_true])

def Lowering.Warns (s t : Lowering) : Prop := ∃ lines, t.log = s.log.append lines ∧ ∀ l ∈ lines, l.level = .warn

namespace Lowering.Warns

variable {s t u : Lowering}

theorem of_log_eq (h : t.log = s.log) : s.Warns t := ⟨[], by simp [h, Log.append], List.forall_mem_nil _⟩

theorem trans (h : s.Warns t) (h' : t.Warns u) : s.Warns u := by
  obtain ⟨lines, ht, hwarn⟩ := h
  obtain ⟨lines', hu, hwarn'⟩ := h'
  refine ⟨lines ++ lines', ?_, List.forall_mem_append.mpr ⟨hwarn, hwarn'⟩⟩
  rw [hu, ht, Log.append, Log.append, Log.append, List.append_assoc]

end Lowering.Warns

namespace Lower

/-- What a run has written: warnings, and behind them the error that it ends with. A fault is silent. -/
inductive Tells {α : Type} (s : Lowering) : EStateM.Result Error Lowering α → Prop
  | ok {a : α} {t : Lowering} (h : s.Warns t) : Tells s (.ok a t)
  | fatal {e : Error} {t u : Lowering} (h : s.Warns t) (hu : u.log = t.log.push .fatal e.message) : Tells s (.error e u)
  | fault {t : Lowering} : Tells s (.error .fault t)

theorem Tells.after {α : Type} {s t : Lowering} {r : EStateM.Result Error Lowering α} (hw : s.Warns t) (h : Tells t r) :
    Tells s r := by
  cases h with
  | ok h => exact .ok (hw.trans h)
  | fatal h hu => exact .fatal (hw.trans h) hu
  | fault => exact .fault

theorem tells_bind {α β : Type} {m : Lower α} {k : α → Lower β} (hm : ∀ s, Tells s (m s))
    (hk : ∀ a s, Tells s (k a s)) (s : Lowering) : Tells s ((m >>= k) s) := by
  have hfirst := hm s
  cases hrun : m s with
  | ok a t =>
      rw [hrun] at hfirst
      rw [bind_ok hrun]
      cases hfirst with
      | ok hw => exact (hk a t).after hw
  | error e t =>
      rw [hrun] at hfirst
      rw [bind_error hrun]
      cases hfirst with
      | fatal hw hu => exact .fatal hw hu
      | fault => exact .fault

theorem tells_emit (op : Op) (s : Lowering) : Tells s (emit op s) := by
  rw [emit]
  cases s.toBuilder.emit? op with
  | none => exact .fault
  | some r => exact .ok (.of_log_eq rfl)

theorem tells_unsupported (kind : String) (expr : Option Expr) (place : Option Place) (s : Lowering) :
    Tells s (unsupported kind expr place s) := by
  let line := "unsupported " ++ kind ++ " in `" ++ s.body.name ++ "`" ++ atText place ++ "; kept opaque"
  have hnote : s.Warns { s with log := s.log.push .warn line } := ⟨[⟨.warn, line⟩], rfl, by simp⟩
  have hrun : unsupported kind expr place s =
      emit (.constant (.unsupported kind expr)) { s with log := s.log.push .warn line } := rfl
  rw [hrun]
  exact (tells_emit _ _).after hnote

theorem tells_lowerIdent (name : String) (s : Lowering) : Tells s (lowerIdent name s) := by
  have hget : (get : Lower Lowering) s = .ok s s := rfl
  rw [lowerIdent, bind_ok hget]
  cases s.body.resolve name with
  | none => exact tells_emit _ s
  | some id => exact .ok (.of_log_eq rfl)

theorem closed_tells : Closed fun m => ∀ s, Tells s (m s) where
  pure _ _ := .ok (.of_log_eq rfl)
  bind := tells_bind
  emit := tells_emit
  ident := tells_lowerIdent
  unsupported := tells_unsupported
  unsupportedExpr kind e s := tells_unsupported kind (some e) s.place s
  stamp _ _ := .ok (.of_log_eq rfl)
  fail _ _ := .fatal (.of_log_eq rfl) rfl

theorem bind_eq_error {α β : Type} {m : Lower α} {k : α → Lower β} {s u : Lowering} {e : Error}
    (h : (m >>= k) s = .error e u) : m s = .error e u ∨ ∃ a t, m s = .ok a t ∧ k a t = .error e u := by
  cases hm : m s with
  | ok a t => exact .inr ⟨a, t, rfl, (bind_ok hm).symm.trans h⟩
  | error e' t =>
      rw [bind_error hm] at h
      cases h
      exact .inl rfl

theorem warns_of_ok {α : Type} {m : Lower α} {s t : Lowering} {a : α} (hm : ∀ s, Tells s (m s)) (h : m s = .ok a t) :
    s.Warns t := by
  have htells := hm s
  rw [h] at htells
  cases htells with
  | ok hw => exact hw

theorem tells_of_error {α β : Type} {m : Lower α} {s t : Lowering} {e : Error} (hm : ∀ s, Tells s (m s))
    (h : m s = .error e t) : Tells (α := β) s (.error e t) := by
  have htells := hm s
  rw [h] at htells
  cases htells with
  | fatal hw hu => exact .fatal hw hu
  | fault => exact .fault

end Lower

namespace Function

variable {f : Function} {log : Log}

def summaryLine (f : Function) (body : Body) : String :=
  "lowered `" ++ f.name ++ "`: " ++ toString body.size ++ " instructions"

theorem lowerInto_ok_log {t : Lowering} (h : f.lowerInto (f.blank log) = .ok () t) :
    ∃ lines, t.log = (log.append lines).push .info (f.summaryLine t.body) ∧ ∀ l ∈ lines, l.level = .warn := by
  have hname : t.body.name = f.name := (f.ends_lowerInto.grows h).name_eq
  obtain ⟨_, u, hparams, hrest⟩ := bind_eq_ok h
  obtain ⟨_, v, hstmts, hnote⟩ := bind_eq_ok hrest
  have hwarns : (f.blank log).Warns u := warns_of_ok (closed_tells.lowerParams f.params) hparams
  obtain ⟨lines, hlog, hlines⟩ := hwarns.trans (warns_of_ok (closed_tells.lowerStmts f.body) hstmts)
  cases hnote
  refine ⟨lines, ?_, hlines⟩
  rw [summaryLine, ← hname]
  exact congrArg (Log.push · .info _) hlog

theorem lowerInto_error_log {e : Error} {t : Lowering} (h : f.lowerInto (f.blank log) = .error e t) :
    ∃ cause lines, e = .structural f.name cause ∧ t.log = (log.append lines).push .fatal e.message ∧
      ∀ l ∈ lines, l.level = .warn := by
  have htells : Tells (α := Unit) (f.blank log) (.error e t) := by
    rcases bind_eq_error h with hparams | ⟨_, u, hparams, hrest⟩
    · exact tells_of_error (closed_tells.lowerParams f.params) hparams
    · rcases bind_eq_error hrest with hstmts | ⟨_, v, _, hnote⟩
      · have hwarns : (f.blank log).Warns u := warns_of_ok (closed_tells.lowerParams f.params) hparams
        exact (tells_of_error (closed_tells.lowerStmts f.body) hstmts).after hwarns
      · cases hnote
  rcases f.ends_lowerInto (f.blank log) with ⟨u, hok, _⟩ | ⟨cause, u, herror, _⟩
  · rw [h] at hok
    cases hok
  · rw [h] at herror
    cases herror
    cases htells with
    | fatal hw hu =>
        obtain ⟨lines, hlog, hlines⟩ := hw
        exact ⟨cause, lines, rfl, hu.trans (congrArg (Log.push · .fatal _) hlog), hlines⟩

theorem lower_error_iff : (∃ e log', f.lower log = .error e log') ↔
    ¬ ((∀ p ∈ f.params, ¬ p.HasOddKey) ∧ ∀ stmt ∈ f.body, stmt.Initialized) := by
  rw [← f.accepts_lowerInto (f.blank log)]
  cases hrun : f.lowerInto (f.blank log) with
  | ok _ t =>
      rw [lower_of_ok hrun]
      simp
  | error e t =>
      rw [lower_of_error hrun]
      simp

/-- A function is turned down exactly for an odd key in a parameter or a declaration without a value. Then the error is
the only fatal line, and the last one; otherwise the summary is the last line, and none is fatal. -/
theorem lower_fails_iff (f : Function) (log : Log) :
    ((∃ e log', f.lower log = .error e log') ↔
      (∃ p ∈ f.params, p.HasOddKey) ∨
        ∃ kind ds place, .decl kind ds place ∈ f.body ∧ ∃ d ∈ ds, d.init = none) ∧
    (∀ e log', f.lower log = .error e log' → ∃ cause lines, e = .structural f.name cause ∧
      log' = (log.append lines).push .fatal e.message ∧ ∀ l ∈ lines, l.level = .warn) ∧
    (∀ body log', f.lower log = .ok body log' → ∃ lines,
      log' = (log.append lines).push .info (f.summaryLine body) ∧ ∀ l ∈ lines, l.level = .warn) := by
  refine ⟨?_, ?_, ?_⟩
  · rw [lower_error_iff, not_and_or]
    refine or_congr (by simp) ?_
    simp only [not_forall, Stmt.not_initialized_iff, exists_prop]
    constructor
    · rintro ⟨_, hstmt, kind, ds, place, rfl, hd⟩
      exact ⟨kind, ds, place, hstmt, hd⟩
    · rintro ⟨kind, ds, place, hstmt, hd⟩
      exact ⟨_, hstmt, kind, ds, place, rfl, hd⟩
  · intro e log' h
    cases hrun : f.lowerInto (f.blank log) with
    | ok _ t =>
        rw [lower_of_ok hrun] at h
        cases h
    | error e' t =>
        rw [lower_of_error hrun] at h
        cases h
        exact lowerInto_error_log hrun
  · intro body log' h
    cases hrun : f.lowerInto (f.blank log) with
    | ok _ t =>
        rw [lower_of_ok hrun] at h
        cases h
        exact lowerInto_ok_log hrun
    | error e t =>
        rw [lower_of_error hrun] at h
        cases h

end Function

end Memoizer
