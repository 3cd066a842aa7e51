import Memoizer.Proofs.Number
import Memoizer.Proofs.Respelling

namespace Memoizer

open Lower

namespace Body

variable {b : Body} {lo mid hi id : InstId} {ids : List InstId} {op : Op}

def stmtsFrom (b : Body) (n : InstId) : List Stmt :=
  (List.range' n (b.size - n)).filterMap fun id => b.rebuildStmt? id (!b.isConsumed id)

theorem reconstruct_eq_stmtsFrom (b : Body) : b.reconstruct = b.stmtsFrom 0 := by
  rw [reconstruct, stmtsFrom, Nat.sub_zero, Arena.keys, List.range_eq_range']
  rfl

theorem stmtsFrom_size (b : Body) : b.stmtsFrom b.size = [] := by
  rw [stmtsFrom, Nat.sub_self, List.range'_zero, List.filterMap_nil]

theorem stmtsFrom_eq (h : id < b.size) :
    b.stmtsFrom id = (b.rebuildStmt? id (!b.isConsumed id)).toList ++ b.stmtsFrom (id + 1) := by
  have hcount : b.size - id = b.size - (id + 1) + 1 := (Nat.succ_pred (Nat.sub_ne_zero_of_lt h)).symm
  rw [stmtsFrom, hcount, List.range'_succ, List.filterMap_cons, stmtsFrom]
  cases b.rebuildStmt? id (!b.isConsumed id) <;> rfl

theorem stmtsFrom_skip (hle : lo ≤ hi) (hhi : hi ≤ b.size)
    (h : ∀ j, lo ≤ j → j < hi → b.rebuildStmt? j (!b.isConsumed j) = none) : b.stmtsFrom lo = b.stmtsFrom hi := by
  induction hle with
  | refl => rfl
  | @step hi hle ih =>
      rw [ih (Nat.le_of_succ_le hhi) fun j hlo hj => h j hlo (Nat.lt_succ_of_lt hj), stmtsFrom_eq hhi,
        h hi hle (Nat.lt_succ_self hi)]
      rfl

theorem rebuildStmt?_of_isConsumed (ho : b.op? id = some op) (hvalue : op.isValue = true)
    (hused : b.isConsumed id = true) : b.rebuildStmt? id (!b.isConsumed id) = none := by
  rw [rebuildStmt?, ho, hused]
  cases op with
  | constant | read | object | call => rfl
  | param | declare | ret => cases hvalue

/-- From `n` on, what came before is read by bound names only. -/
def ClosedFrom (b : Body) (n : InstId) : Prop :=
  ∀ j op, n ≤ j → b.op? j = some op → ∀ k ∈ op.operands, n ≤ k ∨ b.Binds k

theorem closedFrom_size (b : Body) : b.ClosedFrom b.size :=
  fun _ _ hle ho => absurd (lt_size_of_op? ho) (Nat.not_lt.mpr hle)

theorem ClosedFrom.extend (hclosed : b.ClosedFrom hi) (hle : lo ≤ hi)
    (h : ∀ j op, lo ≤ j → j < hi → b.op? j = some op → ∀ k ∈ op.operands, lo ≤ k ∨ b.Binds k) : b.ClosedFrom lo := by
  intro j op hj ho k hk
  rcases Nat.lt_or_ge j hi with hlt | hge
  · exact h j op hj hlt ho k hk
  · exact (hclosed j op hge ho k hk).imp_left (Nat.le_trans hle)

theorem Segment.stmtsFrom_eq (h : b.Segment lo hi ids) (hlo : lo ≤ mid) (hhi : mid ≤ hi) (hsize : hi ≤ b.size)
    (hused : ∀ k ∈ ids, k < mid → b.isConsumed k = true) : b.stmtsFrom lo = b.stmtsFrom mid := by
  refine stmtsFrom_skip hlo (Nat.le_trans hhi hsize) fun j hj hmid => ?_
  have hlt : j < hi := Nat.lt_of_lt_of_le hmid hhi
  obtain ⟨op, ho⟩ := exists_op? (Nat.lt_of_lt_of_le hlt hsize)
  refine rebuildStmt?_of_isConsumed ho (h.isValue j op hj hlt ho) ?_
  rcases h.used j hj hlt with hk | hk
  · exact hused j hk hmid
  · exact hk

/-- The instructions from `lo` to `hi` stand for the statements, whatever comes behind them as long as it refers to them
by bound names only. -/
structure StandsFor (b : Body) (lo hi : InstId) (stmts : List Stmt) : Prop where
  closed : b.ClosedFrom hi → b.ClosedFrom lo
  stmts_eq : b.BindsPlainly → b.ClosedFrom hi → b.stmtsFrom lo = stmts ++ b.stmtsFrom hi

theorem StandsFor.nil (b : Body) (lo : InstId) : b.StandsFor lo lo [] := ⟨fun h => h, fun _ _ => rfl⟩

theorem StandsFor.append {stmts stmts' : List Stmt} (h : b.StandsFor lo mid stmts) (h' : b.StandsFor mid hi stmts') :
    b.StandsFor lo hi (stmts ++ stmts') where
  closed hclosed := h.closed (h'.closed hclosed)
  stmts_eq hplain hclosed := by
    rw [h.stmts_eq hplain (h'.closed hclosed), h'.stmts_eq hplain hclosed, List.append_assoc]

end Body

namespace Lower

variable {b : Body} {s t u : Lowering} {id : InstId}

theorem Found.standsFor {ids : List InstId} {p : Prop} {op : Op} {stmt : Stmt} (h : Found b s t ids p)
    (he : Emitted b t u op id) (hids : op.operands = ids)
    (hop : p → b.rebuildStmt? id (!b.isConsumed id) = some stmt) : b.StandsFor s.body.size u.body.size [stmt] := by
  have hsize := he.size_le
  have ho := he.op?_eq
  rw [he.size_eq] at hsize ⊢
  obtain rfl := he.id_eq
  refine ⟨fun hclosed => ?_, fun hplain _ => ?_⟩
  · exact hclosed.extend (Nat.le_succ_of_le h.size_le) fun _ _ => h.segment.operands_succ ho hids
  · have hfirst : b.stmtsFrom s.body.size = b.stmtsFrom t.body.size :=
      h.segment.stmtsFrom_eq h.size_le (Nat.le_refl _) (Nat.le_of_succ_le hsize)
        fun k hk _ => Body.isConsumed_of_mem ho (hids ▸ hk)
    rw [hfirst, Body.stmtsFrom_eq hsize, hop (h.holds hplain)]
    rfl

/-- A call is a statement of its own: it has no name by which what comes behind could refer to it. -/
theorem Recovered.standsFor_call (hb : b.Backward) {e : Expr} (h : Recovered b s t e id) (hcall : e.isCall = true) :
    b.StandsFor s.body.size t.body.size [.expr e.respelled s.place] := by
  obtain ⟨hlast, receiver, property, args, hinst⟩ := h.call_last hcall
  have ho : b.op? id = some (.call receiver property args) := Body.op?_eq_some_iff.mpr ⟨s.place, hinst⟩
  have hid : id < b.size := Body.lt_size_of_op? ho
  refine ⟨fun hclosed => hclosed.extend h.size_le h.segment.operands, fun hplain hclosed => ?_⟩
  have hroot : b.isConsumed id = false := by
    rw [Bool.eq_false_iff]
    intro hused
    obtain ⟨j, op, ho', hk⟩ := Body.exists_of_isConsumed hused
    have hj : t.body.size ≤ j := hlast ▸ hb j op ho' id hk
    rcases hclosed j op hj ho' id hk with hle | hbinds
    · rw [hlast] at hle
      exact Nat.not_succ_le_self id hle
    · exact Body.not_binds_call ho hbinds
  have hstmt : b.rebuildStmt? id (!b.isConsumed id) = some (.expr e.respelled s.place) := by
    rw [Body.rebuildStmt?, ho, hroot, h.holds hplain, Body.placeAt_of_getElem? hinst]
    rfl
  have hle : s.body.size ≤ id :=
    (h.segment.results id (List.mem_singleton_self id)).resolve_right (Body.not_binds_call ho)
  have hfirst : b.stmtsFrom s.body.size = b.stmtsFrom id := by
    refine h.segment.stmtsFrom_eq hle (hlast ▸ Nat.le_succ id) (hlast ▸ hid) fun k hk hlt => ?_
    rw [List.mem_singleton] at hk
    exact absurd hlt (hk ▸ Nat.lt_irrefl k)
  rw [hfirst, Body.stmtsFrom_eq hid, hstmt, hlast]
  rfl

end Lower

/-- The lowering makes one placeholder of the expression. -/
def Expr.KeptWhole (e : Expr) : Prop := ∃ kind, e.lower = unsupportedExpr kind e

def MemberProp.IsCanonical : MemberProp → Prop
  | .name key => Text.isName key = true
  | .computed (.literal (.string key)) => Text.isName key = false
  | .computed (.literal (.number x)) => x.isNegative = false ∧ ∃ n < Number.twoPow 64, x.wholePart? = some n
  | _ => False

/-- The expressions that instructions hold in full. -/
inductive Expr.Expressible : Expr → Prop
  | literal (value : Literal) : Expressible (.literal value)
  | ident (name : String) : Expressible (.ident name)
  | arrow (params : List Pattern) (body : ArrowBody) (async : Bool) : Expressible (.arrow params body async)
  | function (name : Option String) (params : List Pattern) (body : List Stmt) (async generator : Bool) :
      Expressible (.function name params body async generator)
  | call {callee : Expr} {args : List Expr} (hcallee : Expressible callee) (hargs : ∀ a ∈ args, Expressible a) :
      Expressible (.call callee args)
  | object {props : List (String × Expr)} (hprops : ∀ p ∈ props, Expressible p.2) :
      Expressible (.object (props.map fun p => .property (.ident p.1) p.2 false))
  | member {object : Expr} {property : MemberProp} (hobject : Expressible object) (hproperty : property.IsCanonical) :
      Expressible (.member object property)
  | kept {e : Expr} (h : e.KeptWhole) : Expressible e

inductive Stmt.Expressible : Stmt → Prop
  | decl (kind : DeclKind) (name : String) {init : Expr} (place : Option Place) (h : init.Expressible) :
      Expressible (.decl kind [.mk (.ident name) (some init)] place)
  | ret {value : Option Expr} (place : Option Place) (h : ∀ e ∈ value, e.Expressible) : Expressible (.ret value place)
  | call {callee : Expr} {args : List Expr} (place : Option Place) (h : (Expr.call callee args).Expressible) :
      Expressible (.expr (.call callee args) place)

theorem MemberProp.IsCanonical.accessOf_resolve {property : MemberProp} (h : property.IsCanonical) (object : Expr) :
    ∃ p, property.resolve = some p ∧ p.accessOf object = .member object property := by
  fun_cases MemberProp.IsCanonical property with
  | case1 key => exact ⟨.named key, rfl, if_pos h⟩
  | case2 key => exact ⟨.named key, rfl, if_neg (Bool.eq_false_iff.mp h)⟩
  | case3 x =>
      obtain ⟨hneg, n, hn, hwhole⟩ := h
      refine ⟨.index n, ?_, ?_⟩
      · rw [resolve, Number.index?_eq hneg hn hwhole]
        rfl
      · rw [Property.accessOf, Number.ofNat_eq_of_wholePart hneg hwhole]
  | case4 => cases property <;> simp_all [IsCanonical]

namespace Expr

theorem KeptWhole.respelled_eq {e : Expr} (h : e.KeptWhole) : e.respelled = e := by
  -- A placeholder is rebuilt to the expression in it, so the expression has no other spelling.
  obtain ⟨kind, hkind⟩ := h
  -- In a body of its own the placeholder is rebuilt in two ways: as what it holds, and as any lowered expression is.
  let b : Body := ⟨"", [⟨.constant (.unsupported kind (some e)), none⟩]⟩
  have hop (id : InstId) (op : Op) (ho : b.op? id = some op) : op = .constant (.unsupported kind (some e)) := by
    obtain ⟨place, hi⟩ := Body.op?_eq_some_iff.mp ho
    exact congrArg Inst.op (List.mem_singleton.mp (List.mem_of_getElem? hi))
  have hb : b.Backward := by
    intro id op ho k hk
    rw [hop id op ho] at hk
    cases hk
  have hplain : b.BindsPlainly := by
    intro id op name ho hname
    rw [hop id op ho] at hname
    cases hname
  obtain ⟨log, hrun⟩ : ∃ log, e.lower { body := ⟨"", []⟩, log := {} } = .ok 0 { body := b, log } :=
    ⟨_, by rw [hkind]; rfl⟩
  have hfound := (e.builds_lower _ _ _ hrun).2 b hb List.prefix_rfl
  calc e.respelled
      = b.rebuildExpr 0 := (hfound.holds hplain).symm
    _ = (Op.constant (.unsupported kind (some e))).rebuildWith b.rebuildExpr := Body.rebuildExpr_eq hb rfl
    _ = e := rfl

theorem respelledAll_eq_map (exprs : List Expr) : respelledAll exprs = exprs.map respelled := by
  induction exprs with
  | nil => rfl
  | cons e exprs ih => rw [respelledAll, ih, List.map_cons]

theorem respelledAll_props (props : List (String × Expr)) :
    ObjectMember.respelledAll (props.map fun p => .property (.ident p.1) p.2 false) =
      props.map fun p => .property (.ident p.1) p.2.respelled false := by
  induction props with
  | nil => rfl
  | cons p props ih => rw [List.map_cons, ObjectMember.respelledAll, ih, List.map_cons]

theorem Expressible.respelled_eq {e : Expr} (h : e.Expressible) : e.respelled = e := by
  induction h with
  | literal | ident | arrow | function => exact respelled_of_isWhole rfl
  | kept h => exact h.respelled_eq
  | call _ _ hcallee hargs => rw [respelled, hcallee, respelledAll_eq_map, List.map_congr_left hargs, List.map_id']
  | object _ hprops =>
      rw [respelled, respelledAll_props, if_pos (by simp [ObjectMember.hasIdentKey])]
      refine congrArg Expr.object (List.map_congr_left fun p hp => ?_)
      rw [hprops p hp]
  | @member object property _ hproperty hobject =>
      obtain ⟨p, hp, haccess⟩ := hproperty.accessOf_resolve object
      rw [respelled, hp, hobject]
      exact haccess

end Expr

namespace Stmt

theorem builds_stamped (place : Option Place) (stmt : Option Place → Stmt) {m : Lower Unit}
    (hm : Builds m fun b s t _ => b.StandsFor s.body.size t.body.size [stmt s.place]) :
    Builds (do stamp place; m) fun b s t _ => b.StandsFor s.body.size t.body.size [stmt place] := by
  refine (builds_stamp place).bind (fun _ => hm) ?_
  rintro b _ s t u _ _ ⟨hbody, hplace⟩ hstands
  rw [hbody, hplace] at hstands
  exact hstands

theorem builds_lower_decl (kind : DeclKind) (name : String) (init : Expr) (place : Option Place) :
    Builds (lower (.decl kind [.mk (.ident name) (some init)] place)) fun b s t _ =>
      b.StandsFor s.body.size t.body.size [.decl kind [.mk (.ident name) (some init.respelled)] place] := by
  have hsingle : Declarator.lowerAll kind place [.mk (.ident name) (some init)] =
      Declarator.lower kind place (.mk (.ident name) (some init)) := bind_pure_unit
  rw [lower, hsingle]
  refine builds_stamped place (.decl kind [.mk (.ident name) (some init.respelled)]) ?_
  refine init.builds_lower.bind (fun value => (builds_emit (.ofDeclaration kind (.ident name) value)).discard) ?_
  rintro b _ s t u value _ hfound ⟨id, he⟩
  refine hfound.standsFor he rfl fun hvalue => ?_
  rw [Body.rebuildStmt?, he.op?_eq, he.placeAt_eq, hfound.place_eq, ← hvalue]
  rfl

theorem builds_lower_ret (value : Option Expr) (place : Option Place) :
    Builds (lower (.ret value place)) fun b s t _ =>
      b.StandsFor s.body.size t.body.size [.ret (value.map Expr.respelled) place] := by
  cases value with
  | none =>
      refine builds_stamped place (.ret none) ((builds_emit (.ret none)).discard.mono ?_)
      rintro b _ s t _ ⟨id, he⟩
      refine (Found.nil trivial).standsFor he rfl fun _ => ?_
      rw [Body.rebuildStmt?, he.op?_eq, he.placeAt_eq]
      rfl
  | some value =>
      refine builds_stamped place (.ret (some value.respelled)) ?_
      refine value.builds_lower.bind (fun id => (builds_emit (.ret (some id))).discard) ?_
      rintro b _ s t u value _ hfound ⟨id, he⟩
      refine hfound.standsFor he rfl fun hvalue => ?_
      rw [Body.rebuildStmt?, he.op?_eq, he.placeAt_eq, hfound.place_eq, ← hvalue]
      rfl

theorem builds_lower_call {e : Expr} (hcall : e.isCall = true) (place : Option Place) :
    Builds (lower (.expr e place)) fun b s t _ =>
      b.StandsFor s.body.size t.body.size [.expr e.respelled place] := by
  refine builds_stamped place (.expr e.respelled) (e.builds_lower.discard.mono ?_)
  rintro b hb s t _ ⟨id, hfound⟩
  exact hfound.standsFor_call hb hcall

theorem Expressible.builds_lower {stmt : Stmt} (h : stmt.Expressible) :
    Builds stmt.lower fun b s t _ => b.StandsFor s.body.size t.body.size [stmt] := by
  cases h with
  | @decl kind name init place h =>
      have hbuilds := builds_lower_decl kind name init place
      rw [h.respelled_eq] at hbuilds
      exact hbuilds
  | @ret value place h =>
      have hvalue : value.map Expr.respelled = value := by
        rw [Option.map_congr fun e he => (h e he).respelled_eq, Option.map_id']
      have hbuilds := builds_lower_ret value place
      rw [hvalue] at hbuilds
      exact hbuilds
  | @call callee args place h =>
      have hbuilds := builds_lower_call (e := .call callee args) rfl place
      rw [h.respelled_eq] at hbuilds
      exact hbuilds

theorem builds_lowerAll {stmts : List Stmt} (h : ∀ stmt ∈ stmts, stmt.Expressible) :
    Builds (lowerAll stmts) fun b s t _ => b.StandsFor s.body.size t.body.size stmts := by
  induction stmts with
  | nil => exact .pure fun b s => .nil b s.body.size
  | cons stmt stmts ih =>
      obtain ⟨hhead, htail⟩ := List.forall_mem_cons.mp h
      exact hhead.builds_lower.bind (fun _ => ih htail) fun _ _ _ _ _ _ _ hs ht => hs.append ht

end Stmt

namespace Function

variable {f : Function} {log log' : Log} {body : Body}

theorem lower_stages (h : f.lower log = .ok body log') :
    f.emitted log = body ∧ ∃ t u, Pattern.lowerParams f.params (f.blank log) = .ok () t ∧
      Stmt.lowerAll f.body t = .ok () u ∧ u.body = body := by
  rw [emitted]
  cases hrun : f.lowerInto (f.blank log) with
  | error e v =>
      rw [lower_of_error hrun] at h
      cases h
  | ok _ v =>
      rw [lower_of_ok hrun] at h
      cases h
      obtain ⟨_, t, hparams, hrest⟩ := bind_eq_ok hrun
      obtain ⟨_, u, hstmts, hnote⟩ := bind_eq_ok hrest
      cases hnote
      exact ⟨rfl, t, u, hparams, hstmts, rfl⟩

theorem emitted_bindsPlainly (log : Log) (hbody : ∀ stmt ∈ f.body, stmt.Expressible) : (f.emitted log).BindsPlainly := by
  intro id op name ho hname
  rw [Body.rebuildExpr_eq (f.emitted_backward log) ho]
  cases loweredFrom_of_op? ho with
  | plain h =>
      rw [h] at hname
      cases hname
  | param name' =>
      rw [List.mem_singleton.mp hname]
      rfl
  | declared hs hd _ value =>
      cases hbody _ hs
      obtain ⟨rfl, rfl⟩ := Declarator.mk.inj (List.mem_singleton.mp hd)
      rw [List.mem_singleton.mp hname]
      rfl

theorem exists_param_of_op? {t : Lowering} (h : Pattern.lowerParams f.params (f.blank log) = .ok () t) {j : InstId}
    {op : Op} (ho : t.body.op? j = some op) : ∃ name, op = .param name := by
  obtain ⟨place, hi⟩ := Body.op?_eq_some_iff.mp ho
  have hends : Ends (fun op => ∃ name, op = .param name) (Pattern.lowerParams f.params) :=
    Pattern.ends_lowerParams (fun name => ⟨name, rfl⟩) f.params
  rcases (hends.grows h).emitted _ (List.mem_of_getElem? hi) with hold | hparam
  · cases hold
  · exact hparam

theorem stmtsFrom_params {t : Lowering} (h : Pattern.lowerParams f.params (f.blank log) = .ok () t) {b : Body}
    (hb : t.body.insts <+: b.insts) : b.stmtsFrom 0 = b.stmtsFrom t.body.size := by
  refine Body.stmtsFrom_skip (Nat.zero_le _) hb.length_le fun j _ hj => ?_
  obtain ⟨op, ho⟩ := Body.exists_op? hj
  obtain ⟨name, rfl⟩ := exists_param_of_op? h ho
  rw [Body.rebuildStmt?, Body.op?_of_isPrefix hb ho]

/-- Lowering loses nothing of a function that instructions can express. -/
theorem reconstruct_lower (f : Function) (log log' : Log) (body : Body) (h : f.lower log = .ok body log')
    (hstmts : ∀ stmt ∈ f.body, stmt.Expressible) : body.reconstruct = f.body := by
  obtain ⟨rfl, t, u, hparams, hrun, hu⟩ := lower_stages h
  obtain ⟨hpre, hpost⟩ := Stmt.builds_lowerAll hstmts t () u hrun
  have hstands : (f.emitted log).StandsFor t.body.size u.body.size f.body :=
    hpost _ (f.emitted_backward log) (hu ▸ List.prefix_rfl)
  rw [hu] at hpre hstands
  calc (f.emitted log).reconstruct
      = (f.emitted log).stmtsFrom 0 := Body.reconstruct_eq_stmtsFrom _
    _ = (f.emitted log).stmtsFrom t.body.size := stmtsFrom_params hparams hpre
    _ = f.body ++ (f.emitted log).stmtsFrom (f.emitted log).size :=
        hstands.stmts_eq (emitted_bindsPlainly log hstmts) (Body.closedFrom_size _)
    _ = f.body := by rw [Body.stmtsFrom_size, List.append_nil]

/-- `const odd = rows.filter(isOdd)[3]; report({ odd: odd, of: "rows" }, n + 1); return rows["the last"];`, of a parameter
`{ rows }`. -/
def pickedRows : Function where
  name := "F"
  params := [.object [.mk (.ident "rows") (.ident "rows") true] none]
  body := [
    .decl .const [.mk (.ident "odd") (some (.member
      (.call (.member (.ident "rows") (.name "filter")) [.ident "isOdd"])
      (.computed (.literal (.number ⟨0x4008000000000000⟩)))))] (some ⟨"f.js", 2, 3⟩),
    .expr (.call (.ident "report") [
      .object [.property (.ident "odd") (.ident "odd") false, .property (.ident "of") (.literal (.string "rows")) false],
      .binary "+" (.ident "n") (.literal (.number ⟨0x3FF0000000000000⟩))]) (some ⟨"f.js", 3, 3⟩),
    .ret (some (.member (.ident "rows") (.computed (.literal (.string "the last"))))) (some ⟨"f.js", 4, 3⟩)]
  async := false
  generator := false
  exported := .none
  place := none

theorem pickedRows_expressible : ∀ stmt ∈ pickedRows.body, stmt.Expressible := by
  have hfilter : Text.isName "filter" = true := by decide +kernel
  have hlast : Text.isName "the last" = false := by decide +kernel
  have hthree : (MemberProp.computed (.literal (.number ⟨0x4008000000000000⟩))).IsCanonical :=
    ⟨by decide +kernel, 3, by decide, by decide +kernel⟩
  have hsum : Expr.KeptWhole (.binary "+" (.ident "n") (.literal (.number ⟨0x3FF0000000000000⟩))) :=
    ⟨_, by rw [Expr.lower]⟩
  have hobject : Expr.Expressible (.object [.property (.ident "odd") (.ident "odd") false,
      .property (.ident "of") (.literal (.string "rows")) false]) :=
    @Expr.Expressible.object [("odd", .ident "odd"), ("of", .literal (.string "rows"))]
      (List.forall_mem_cons.mpr ⟨.ident _, List.forall_mem_singleton.mpr (.literal _)⟩)
  simp only [pickedRows, List.forall_mem_cons]
  refine ⟨.decl _ _ _ (.member (.call (.member (.ident _) hfilter) ?_) hthree), .call _ (.call (.ident _) ?_), .ret _ ?_,
    List.forall_mem_nil _⟩
  · exact List.forall_mem_singleton.mpr (.ident _)
  · exact List.forall_mem_cons.mpr ⟨hobject, List.forall_mem_singleton.mpr (.kept hsum)⟩
  · rintro _ ⟨⟩
    exact .member (.ident _) hlast

theorem reconstruct_pickedRows : ∃ body log, pickedRows.lower {} = .ok body log ∧ body.size = 11 ∧
    body.reconstruct = pickedRows.body := by
  have hsize : (pickedRows.emitted {}).size = 11 := by decide +kernel
  have hends : (pickedRows.lower {} matches .ok ..) = true := by decide +kernel
  rcases pickedRows.lower_cases {} with ⟨log, hrun⟩ | ⟨cause, log, hrun⟩
  · exact ⟨_, log, hrun, hsize, reconstruct_lower _ _ _ _ hrun pickedRows_expressible⟩
  · rw [hrun] at hends
    cases hends

end Function

end Memoizer
