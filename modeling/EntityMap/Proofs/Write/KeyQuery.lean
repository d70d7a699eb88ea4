import EntityMap.Proofs.Query.JoinTree
import EntityMap.Proofs.Sql.Expression
import EntityMap.Proofs.Write.StorageForm

/-!
# Key queries for values alike

A key query compares a member with a value. What is sent for it depends
on the value in its parameters only: two values, both of them null or
neither, make one text (`CascadeRules.keyQuery_alike`), unless one of
the two has no storage form.

`Except.Alike` is the form of such statements: two answers are there
together and related, or one of them is missing for want of a storage
form.
-/

namespace EntityMap

/-! ## Answers side by side -/

/-- Two answers: both are there, related by `R`, or neither is, or one of the two is missing, by an
error of the kind `p`. -/
inductive Except.Alike {ε α : Type} (p : ε → Prop) (R : α → α → Prop) :
    Except ε α → Except ε α → Prop
  | ok {a a' : α} (h : R a a') : Alike p R (.ok a) (.ok a')
  | error {e e' : ε} : Alike p R (.error e) (.error e')
  | left {e : ε} {a' : α} (h : p e) : Alike p R (.error e) (.ok a')
  | right {a : α} {e' : ε} (h : p e') : Alike p R (.ok a) (.error e')

namespace Except.Alike

variable {ε ε' α β : Type} {p : ε → Prop} {R : α → α → Prop} {S : β → β → Prop}
  {x x' : Except ε α}

theorem refl (p : ε → Prop) (x : Except ε α) : Alike p Eq x x := by
  cases x with
  | ok a => exact .ok rfl
  | error e => exact .error

theorem mono {R' : α → α → Prop} (h : Alike p R x x') (himp : ∀ a a', R a a' → R' a a') :
    Alike p R' x x' := by
  cases h with
  | ok h => exact .ok (himp _ _ h)
  | error => exact .error
  | left h => exact .left h
  | right h => exact .right h

/-- Errors that are renamed to one of the kind `p`. -/
theorem of_mapError {g : ε' → ε} {x x' : Except ε' α} (hg : ∀ e, p (g e))
    (hR : ∀ a a', x = .ok a → x' = .ok a' → R a a') :
    Alike p R (x.mapError g) (x'.mapError g) := by
  cases x with
  | ok a =>
      cases x' with
      | ok a' => exact .ok (hR a a' rfl rfl)
      | error e' => exact .right (hg e')
  | error e =>
      cases x' with
      | ok a' => exact .left (hg e)
      | error e' => exact .error

theorem bind {f f' : α → Except ε β} (h : Alike p R x x')
    (hf : ∀ a a', R a a' → Alike p S (f a) (f' a')) : Alike p S (x >>= f) (x' >>= f') := by
  cases h with
  | ok h => exact hf _ _ h
  | error => exact .error
  | @left e a' h =>
      show Alike p S (.error e) (f' a')
      cases f' a' with
      | ok b => exact .left h
      | error e' => exact .error
  | @right a e' h =>
      show Alike p S (f a) (.error e')
      cases f a with
      | ok b => exact .right h
      | error e => exact .error

theorem mapError {q : ε' → Prop} {g : ε → ε'} (h : Alike p R x x') (hg : ∀ e, p e → q (g e)) :
    Alike q R (x.mapError g) (x'.mapError g) := by
  cases h with
  | ok h => exact .ok h
  | error => exact .error
  | left h => exact .left (hg _ h)
  | right h => exact .right (hg _ h)

theorem map {g : α → β} (h : Alike p R x x') (hg : ∀ a a', R a a' → S (g a) (g a')) :
    Alike p S (x.map g) (x'.map g) := by
  cases h with
  | ok h => exact .ok (hg _ _ h)
  | error => exact .error
  | left h => exact .left h
  | right h => exact .right h

end Except.Alike

/-! ## Values without a storage form -/

/-- The literal has no storage form. -/
def FilterError.isConversion : FilterError → Bool
  | .conversion _ _ | .literalType _ _ _ => true
  | _ => false

def PlanError.isConversion : PlanError → Bool
  | .filter error => error.isConversion
  | _ => false

/-- A value has no storage form, in a row or beside a column that it is compared with. -/
def WriteError.isConversion : WriteError → Bool
  | .invalidValue _ _ _ | .valueType _ _ _ _ => true
  | .plan error => error.isConversion
  | _ => false

/-- Answers that are there together, unless a value has no storage form. -/
abbrev StoredAlike {α : Type} (R : α → α → Prop) :
    Except WriteError α → Except WriteError α → Prop :=
  Except.Alike (·.isConversion) R

namespace Context

variable {v w : Value}

theorem enumerationLiteral_alike (ctx : Context) (member : String) (type : DataType)
    (hv : v.isNull = false) (hw : w.isNull = false) :
    Except.Alike (·.isConversion) (fun a b => a.isNull = false ∧ b.isNull = false)
      (ctx.enumerationLiteral member type v) (ctx.enumerationLiteral member type w) := by
  unfold enumerationLiteral
  split
  · split
    · exact .of_mapError (fun _ => rfl) fun a b ha hb =>
        ⟨Enumeration.isNull_of_toStorage hv ha, Enumeration.isNull_of_toStorage hw hb⟩
    · exact .error
  · exact .ok ⟨hv, hw⟩

/-- Literals that are both null, or neither, have storage forms that are. -/
theorem storedLiteral_alike (ctx : Context) (column : NodeColumn) (hnull : w.isNull = v.isNull) :
    Except.Alike (·.isConversion) (fun a b => b.isNull = a.isNull)
      (ctx.storedLiteral column v) (ctx.storedLiteral column w) := by
  unfold storedLiteral
  rw [hnull]
  split
  · exact .ok hnull
  · rename_i hv
    rw [Bool.not_eq_true] at hv
    rw [hv] at hnull
    refine (Except.Alike.refl _ _).bind fun mapped _ hmapped => ?_
    subst hmapped
    refine (ctx.enumerationLiteral_alike _ mapped.type hv hnull).bind fun a b hab => ?_
    obtain ⟨ha, hb⟩ := hab
    cases mapped.adapter with
    | some adapter =>
        refine .of_mapError (fun _ => rfl) fun s t hs ht => ?_
        rw [Adapter.isNull_of_toStorage ha hs, Adapter.isNull_of_toStorage hb ht]
    | none =>
        dsimp only
        cases hs : a.coerce? mapped.type with
        | none =>
            cases b.coerce? mapped.type with
            | none => exact .error
            | some t => exact .left rfl
        | some s =>
            cases ht : b.coerce? mapped.type with
            | none => exact .right rfl
            | some t => exact .ok (by rw [isNull_of_coerce? ha hs, isNull_of_coerce? hb ht])

end Context

/-! ## Texts of statements -/

/-- Conditions on the same nodes, and of the same text. -/
structure BoundFilter.Similar (b b' : BoundFilter) : Prop where
  nodes : b'.nodes = b.nodes
  text : (Sql.condition b').map (·.sql) = (Sql.condition b).map (·.sql)

theorem Sql.condition_compare {v : Value} (op : Operator) (column : NodeColumn)
    (hv : v.isNull = false) :
    condition (.compare column op v) =
      [.text "("] ++ nodeColumn column ++ [.text (" " ++ op.sql ++ " ")] ++ [.parameter v] ++
        [.text ")"] := by
  have hmember : (.member column : BoundFilter) ≠ .literal .null := fun h => by cases h
  have hliteral : (.literal v : BoundFilter) ≠ .literal .null := by
    rintro h
    cases h
    cases hv
  exact (condition_binary (.inr ⟨hmember, hliteral⟩)).1

/-- Beside a column, the text of a literal says no more than whether it is null. -/
theorem BoundFilter.similar_compare {op : Operator} {column : NodeColumn} {v w : Value}
    (hnull : w.isNull = v.isNull) :
    Similar (.compare column op v) (.compare column op w) := by
  constructor
  case nodes => rfl
  case text =>
    cases hv : v.isNull with
    | true =>
        rw [hv] at hnull
        obtain rfl : v = .null := by cases v <;> first | rfl | cases hv
        obtain rfl : w = .null := by cases w <;> first | rfl | cases hnull
        rfl
    | false =>
        rw [hv] at hnull
        rw [Sql.condition_compare op column hv, Sql.condition_compare op column hnull]
        simp only [List.map_append, List.map_cons, List.map_nil, Sql.Piece.sql]

/-- A plan depends on its filter by the nodes that the filter compares. -/
theorem Context.plan_filter {ctx : Context} {d : Draft} {b b' : BoundFilter}
    (hfilter : d.filter = some b) (hnodes : b'.nodes = b.nodes) :
    ctx.plan { d with filter := some b' } =
      (ctx.plan d).map fun p => { p with filter := some b' } := by
  have hclosure : ctx.closure { d with filter := some b' } = ctx.closure d := by
    unfold closure Draft.filterOnlyNodes Draft.referencedNodes
    rw [hfilter]
    dsimp only
    rw [hnodes]
  unfold plan
  dsimp only
  rw [hclosure]
  cases ctx.keyColumn d.target with
  | error e => rfl
  | ok key =>
  cases ctx.closure d with
  | error e => rfl
  | ok closure =>
  dsimp only [bind, Except.bind]
  cases ctx.joins _ _ _ with
  | error e => rfl
  | ok joins =>
  dsimp only
  cases (ctx.node _).mapError PlanError.context with
  | error e => rfl
  | ok node => rfl

theorem Sql.clause_similar {word separator : String} {b b' : BoundFilter}
    (hsimilar : b.Similar b') (restriction : Option (List Piece)) :
    (clause word separator ([condition b'] ++ restriction.toList)).map (·.sql) =
      (clause word separator ([condition b] ++ restriction.toList)).map (·.sql) := by
  cases restriction <;> simp [clause, List.intercalate, hsimilar.text]

/-- So does its statement, but for the text of the filter. -/
theorem Plan.statement_alike {style : LimitStyle} {p : Plan} {b b' : BoundFilter}
    (hfilter : p.filter = some b) (hsimilar : b.Similar b') :
    Except.Alike (fun _ => False) (fun s s' => s'.sql = s.sql)
      (p.statement style) (statement style { p with filter := some b' }) := by
  unfold statement
  dsimp only
  split
  · exact .error
  · refine .ok ?_
    unfold Statement.ofPieces Plan.pieces Sql.conditions
    rw [hfilter]
    simp only [List.map_append, Option.map_some, Option.toList_some]
    rw [Sql.clause_similar hsimilar]

/-! ## Plans side by side -/

namespace Growing

variable {ε α β : Type}

/-- What a computation answers, and the context that it leaves then. -/
def answer (m : Growing ε α) (ctx : Context) : Except ε (α × Context) :=
  (m.run ctx).1.map (·, (m.run ctx).2)

theorem answer_bind (m : Growing ε α) (f : α → Growing ε β) (ctx : Context) :
    (m >>= f).answer ctx = m.answer ctx >>= fun left => (f left.1).answer left.2 := by
  unfold answer
  rw [run_bind]
  rcases m.run ctx with ⟨e | a, ctx'⟩ <;> rfl

/-- From every context, two computations answer alike, and leave one context if both do. -/
def Alike (p : ε → Prop) (R : α → α → Prop) (m m' : Growing ε α) : Prop :=
  ∀ ctx, Except.Alike p (fun left left' => R left.1 left'.1 ∧ left'.2 = left.2) (m.answer ctx)
    (m'.answer ctx)

namespace Alike

variable {p : ε → Prop} {R : α → α → Prop} {S : β → β → Prop} {m m' : Growing ε α}

theorem refl (m : Growing ε α) : Alike p Eq m m :=
  fun ctx => (Except.Alike.refl p (m.answer ctx)).mono fun _ _ heq => ⟨heq ▸ rfl, heq ▸ rfl⟩

theorem pure {a a' : α} (h : R a a') : Alike p R (Pure.pure a : Growing ε α) (Pure.pure a') :=
  fun _ => .ok ⟨h, rfl⟩

theorem look {f f' : Context → Except ε α} (h : ∀ ctx, Except.Alike p R (f ctx) (f' ctx)) :
    Alike p R (Growing.look f) (Growing.look f') :=
  fun ctx => (h ctx).map fun _ _ hR => ⟨hR, rfl⟩

theorem bind {f f' : α → Growing ε β} (h : Alike p R m m')
    (hf : ∀ a a', R a a' → Alike p S (f a) (f' a')) : Alike p S (m >>= f) (m' >>= f') := by
  intro ctx
  rw [answer_bind, answer_bind]
  refine (h ctx).bind ?_
  rintro ⟨a, ctx'⟩ ⟨a', _⟩ ⟨hR, rfl⟩
  exact hf a a' hR _

/-- What both do first does not tell them apart. -/
theorem refl_bind {f f' : β → Growing ε α} (m : Growing ε β) (h : ∀ b, Alike p R (f b) (f' b)) :
    Alike p R (m >>= f) (m >>= f') :=
  (refl m).bind fun b _ heq => heq ▸ h b

theorem run (h : Alike p R m m') (ctx : Context) :
    Except.Alike p R (m.run ctx).1 (m'.run ctx).1 := by
  have hanswer : ∀ m : Growing ε α, (m.answer ctx).map Prod.fst = (m.run ctx).1 := by
    intro m
    unfold answer
    cases (m.run ctx).1 <;> rfl
  rw [← hanswer m, ← hanswer m']
  exact (h ctx).map fun _ _ hR => hR.1

theorem adapt {ε' : Type} {q : ε' → Prop} {g : ε → ε'} (h : Alike p R m m')
    (hg : ∀ e, p e → q (g e)) : Alike q R (ExceptT.adapt g m) (ExceptT.adapt g m') := by
  intro ctx
  have hanswer : ∀ m : Growing ε α,
      answer (ExceptT.adapt g m) ctx = (answer m ctx).mapError g := by
    intro m
    have hrun : (ExceptT.adapt g m).run ctx = ((m.run ctx).1.mapError g, (m.run ctx).2) := rfl
    unfold answer
    rw [hrun]
    cases (m.run ctx).1 <;> rfl
  rw [hanswer, hanswer]
  exact (h ctx).mapError hg

end Alike

end Growing

theorem Filter.bind_compare_alike (target : Nat) (path : String) (op : Operator) {v w : Value}
    (hnull : w.isNull = v.isNull) :
    Growing.Alike (·.isConversion) BoundFilter.Similar
      (Filter.bind target (.compare path op v)) (Filter.bind target (.compare path op w)) := by
  unfold Condition.compare Filter.bind
  have hmember : Growing.Alike (·.isConversion)
      (fun left left' => ∃ column, left = .member column ∧ left' = .member column)
      (Filter.bind target (.member path)) (Filter.bind target (.member path)) := by
    rw [Filter.bind]
    exact .refl_bind _ fun column => .pure ⟨column, rfl, rfl⟩
  refine hmember.bind ?_
  rintro _ _ ⟨column, rfl, rfl⟩
  have hliteral : Growing.Alike (·.isConversion)
      (fun right right' => right = .literal v ∧ right' = .literal w)
      (Filter.bind target (.literal v)) (Filter.bind target (.literal w)) := by
    rw [Filter.bind, Filter.bind]
    exact .pure ⟨rfl, rfl⟩
  refine hliteral.bind ?_
  rintro _ _ ⟨rfl, rfl⟩
  split
  · exact .pure (BoundFilter.similar_compare hnull)
  · have hstored : Growing.Alike (·.isConversion)
        (fun sides sides' => ∃ x y, y.isNull = x.isNull ∧
          sides = (.member column, .literal x) ∧ sides' = (.member column, .literal y))
        (Growing.look (·.comparison (.member column) (.literal v)))
        (Growing.look (·.comparison (.member column) (.literal w))) := by
      refine .look fun ctx => ?_
      refine (ctx.storedLiteral_alike column hnull).bind fun x y hxy => ?_
      exact .ok ⟨x, y, hxy, rfl, rfl⟩
    refine hstored.bind ?_
    rintro _ _ ⟨x, y, hxy, rfl, rfl⟩
    exact .pure (BoundFilter.similar_compare hxy)

theorem Request.plan_alike (r : Request) (target : Nat) (scope : Scope) {f f' : Filter}
    (hbind : Growing.Alike (·.isConversion) BoundFilter.Similar
      (Filter.bind target f) (Filter.bind target f')) :
    Growing.Alike (·.isConversion)
      (fun p p' => ∃ b b', b.Similar b' ∧ p.filter = some b ∧ p' = { p with filter := some b' })
      ((r.filtered f).plan target scope) ((r.filtered f').plan target scope) := by
  have hdraft : Growing.Alike (·.isConversion)
      (fun d d' => ∃ b b', b.Similar b' ∧ d.filter = some b ∧ d' = { d with filter := some b' })
      ((r.filtered f).checkedDraft target scope) ((r.filtered f').checkedDraft target scope) := by
    unfold checkedDraft draft
    refine .refl_bind _ fun _ => .refl_bind _ fun _ => .refl_bind _ fun select => ?_
    have hfilter := Growing.Alike.adapt (q := (·.isConversion)) (g := PlanError.filter) hbind
      fun _ he => he
    have hfilters : Growing.Alike (·.isConversion)
        (fun bound bound' => ∃ b b', b.Similar b' ∧ bound = some b ∧ bound' = some b')
        ((r.filtered f).filter.mapM fun f => (Filter.bind target f).adapt PlanError.filter)
        ((r.filtered f').filter.mapM fun f => (Filter.bind target f).adapt PlanError.filter) := by
      show Growing.Alike _ _ (some <$> _) (some <$> _)
      rw [map_eq_pure_bind, map_eq_pure_bind]
      exact hfilter.bind fun b b' hb => .pure ⟨b, b', hb, rfl, rfl⟩
    refine hfilters.bind ?_
    rintro _ _ ⟨b, b', hb, rfl, rfl⟩
    cases scope <;> exact .refl_bind _ fun orderBy => .pure ⟨b, b', hb, rfl, rfl⟩
  unfold Request.plan
  refine hdraft.bind ?_
  rintro d _ ⟨b, b', hb, hd, rfl⟩
  refine .look fun ctx => ?_
  rw [Context.plan_filter hd hb.nodes]
  cases hp : ctx.plan d with
  | error e => exact .error
  | ok p =>
      obtain ⟨-, -, hdraft, -⟩ := Context.plan_eq_ok hp
      exact .ok ⟨b, b', hb, hdraft ▸ hd, rfl⟩

/-- Key queries that compare a member with two values, both null or neither, have one text. -/
theorem CascadeRules.keyQuery_alike (rules : CascadeRules) (entity path : String) (op : Operator)
    {v w : Value} (hnull : w.isNull = v.isNull) :
    StoredAlike (fun s s' => s'.sql = s.sql) (rules.keyQuery entity (.compare path op v))
      (rules.keyQuery entity (.compare path op w)) := by
  unfold keyQuery
  refine (Except.Alike.refl _ _).bind ?_
  rintro ⟨t, key⟩ _ rfl
  refine (Except.Alike.refl _ _).bind ?_
  rintro ctx _ rfl
  have hplan := (Request.plan_alike (({} : Request).projecting key.member keyLabel) Context.root
    .outer (Filter.bind_compare_alike Context.root path op hnull)).run ctx
  refine (hplan.mapError (q := (·.isConversion)) (g := WriteError.plan) fun _ he => he).bind ?_
  rintro p _ ⟨b, b', hb, hp, rfl⟩
  exact (Plan.statement_alike hp hb).mapError fun _ he => he.elim

end EntityMap
