import EntityMap.Proofs.Sql.Expression
import EntityMap.Proofs.Sql.Tokens

/-!
# The grammar of conditions

How a condition is read (`Derives`): `OR` binds less than `AND`, `AND` less
than the comparisons, which share one level with the tests for null and with
membership, and the operators of a level group to the left. Parentheses
group as they stand.

The grammar is not ambiguous (`Derives.unique`). A `Parser` that takes the
tokens one by one and keeps the operators whose right operand is not complete
on a stack ends with the tree of every derivation (`Derives.parse`), so that
there is one at most.
-/

namespace EntityMap

namespace Sql

/-- How strongly an operator binds its operands. -/
def bindingLevel : Operator → Nat
  | .or => 0
  | .and => 1
  | _ => 2

/-- The tokens `ts` are an expression of at least the given level: `0` for `OR`, `1` for
`AND`, `2` for comparisons and tests, `3` for what needs no parentheses as an operand. -/
inductive Derives : Nat → List Token → Expression → Prop where
  | column (nodeAlias name : String) :
    Derives 3 [.word nodeAlias, .dot, .name name] (.column nodeAlias name)
  | literal (v : Value) : Derives 3 [.value v] (.literal v)
  | constant (word : String) : Derives 3 [.word word] (.constant word)
  | group {ts : List Token} {e : Expression} (inner : Derives 0 ts e) :
    Derives 3 ([.opening] ++ ts ++ [.closing]) e
  | isNull {ts : List Token} {e : Expression} (operand : Derives 2 ts e) :
    Derives 2 (ts ++ [.is, .null]) (.nullTest false e)
  | isNotNull {ts : List Token} {e : Expression} (operand : Derives 2 ts e) :
    Derives 2 (ts ++ [.is, .not, .null]) (.nullTest true e)
  | isIn {ts : List Token} {e : Expression} (v : Value) (vs : List Value)
      (operand : Derives 2 ts e) :
    Derives 2 (ts ++ [.isIn, .opening, .value v] ++ vs.flatMap (fun v => [.comma, .value v]) ++
      [.closing]) (.isIn e (v :: vs))
  | binary {op : Operator} {ls rs : List Token} {l r : Expression}
      (left : Derives (bindingLevel op) ls l) (right : Derives (bindingLevel op + 1) rs r) :
    Derives (bindingLevel op) (ls ++ [.operator op] ++ rs) (.binary op l r)
  /-- What binds more strongly may stand where less is asked for. -/
  | weaken {n : Nat} {ts : List Token} {e : Expression} (h : Derives (n + 1) ts e) :
    Derives n ts e

theorem Derives.mono {m n : Nat} {ts : List Token} {e : Expression} (h : Derives n ts e)
    (hle : m ≤ n) : Derives m ts e := by
  induction hle with
  | refl => exact h
  | step _ ih => exact ih h.weaken

/-! ## The parser -/

/-- What a parser has begun and not completed. -/
inductive Frame where
  | group
  /-- An operator whose right operand is being read. -/
  | awaiting (left : Expression) (op : Operator)

/-- What a parser has read last. -/
inductive Focus where
  /-- Nothing that an operand could begin with. -/
  | operand
  | read (e : Expression)
  | dotted (nodeAlias : String)
  | is (e : Expression)
  | isNot (e : Expression)
  | isIn (e : Expression)
  | list (e : Expression)
  | item (e : Expression) (values : List Value)
  | comma (e : Expression) (values : List Value)

structure Parser where
  stack : List Frame
  focus : Focus

namespace Parser

/-- Completes the operators on top of the stack that bind at least as strongly as `level`,
the last of which has the operand `e`. -/
def reduce (level : Nat) : List Frame → Expression → List Frame × Expression
  | .awaiting left op :: stack, e =>
    if level ≤ bindingLevel op then reduce level stack (.binary op left e)
    else (.awaiting left op :: stack, e)
  | .group :: stack, e => (.group :: stack, e)
  | [], e => ([], e)

def step (p : Parser) (t : Token) : Option Parser :=
  match p.focus, t with
  | .operand, .word w => some ⟨p.stack, .read (.constant w)⟩
  | .operand, .value v => some ⟨p.stack, .read (.literal v)⟩
  | .operand, .opening => some ⟨.group :: p.stack, .operand⟩
  | .read (.constant w), .dot => some ⟨p.stack, .dotted w⟩
  | .dotted w, .name n => some ⟨p.stack, .read (.column w n)⟩
  | .read e, .operator op =>
    let (stack, left) := reduce (bindingLevel op) p.stack e
    some ⟨.awaiting left op :: stack, .operand⟩
  | .read e, .is =>
    let (stack, e) := reduce 2 p.stack e
    some ⟨stack, .is e⟩
  | .is e, .null => some ⟨p.stack, .read (.nullTest false e)⟩
  | .is e, .not => some ⟨p.stack, .isNot e⟩
  | .isNot e, .null => some ⟨p.stack, .read (.nullTest true e)⟩
  | .read e, .isIn =>
    let (stack, e) := reduce 2 p.stack e
    some ⟨stack, .isIn e⟩
  | .isIn e, .opening => some ⟨p.stack, .list e⟩
  | .list e, .value v => some ⟨p.stack, .item e [v]⟩
  | .item e vs, .comma => some ⟨p.stack, .comma e vs⟩
  | .comma e vs, .value v => some ⟨p.stack, .item e (vs ++ [v])⟩
  | .item e vs, .closing => some ⟨p.stack, .read (.isIn e vs)⟩
  | .read e, .closing =>
    match reduce 0 p.stack e with
    | (.group :: stack, e) => some ⟨stack, .read e⟩
    | _ => none
  | _, _ => none

def run (p : Parser) (ts : List Token) : Option Parser :=
  ts.foldlM step p

/-- The expression of a parser that is at the end of a text. -/
def finish (p : Parser) : Option Expression :=
  match p.focus with
  | .read e =>
    match reduce 0 p.stack e with
    | ([], e) => some e
    | _ => none
  | _ => none

theorem run_append (p : Parser) (ts us : List Token) :
    p.run (ts ++ us) = (p.run ts).bind (·.run us) :=
  List.foldlM_append

/-- Operators of at least the given level, of which the last has the operand `x` and which
all together are `e`. -/
inductive Pending (level : Nat) : List Frame → Expression → Expression → Prop where
  | none (e : Expression) : Pending level [] e e
  | awaiting {stack : List Frame} {left x e : Expression} {op : Operator}
      (hop : level ≤ bindingLevel op) (rest : Pending level stack (.binary op left x) e) :
    Pending level (.awaiting left op :: stack) x e

namespace Pending

theorem mono {m n : Nat} {stack : List Frame} {x e : Expression} (h : Pending n stack x e)
    (hle : m ≤ n) : Pending m stack x e := by
  induction h with
  | none e => exact .none e
  | awaiting hop _ ih => exact .awaiting (Nat.le_trans hle hop) ih

/-- A complete right operand completes the operator below it. -/
theorem under {level : Nat} {stack : List Frame} {left x r : Expression} {op : Operator}
    (h : Pending level stack x r) (hop : level ≤ bindingLevel op) :
    Pending level (stack ++ [.awaiting left op]) x (.binary op left r) := by
  induction h with
  | none e => exact .awaiting hop (.none _)
  | awaiting hop' _ ih => exact .awaiting hop' ih

theorem reduce {m n : Nat} {pending stack : List Frame} {x e : Expression}
    (h : Pending n pending x e) (hle : m ≤ n) :
    Parser.reduce m (pending ++ stack) x = Parser.reduce m stack e := by
  induction h with
  | none e => rfl
  | awaiting hop _ ih => rw [List.cons_append, Parser.reduce, if_pos (Nat.le_trans hle hop), ih]

end Pending

/-- No operator on top of the stack binds as strongly as `level`. -/
def Below (level : Nat) (stack : List Frame) : Prop :=
  ∀ left op rest, stack = .awaiting left op :: rest → bindingLevel op < level

theorem Below.reduce {level : Nat} {stack : List Frame} (h : Below level stack) (e : Expression) :
    Parser.reduce level stack e = (stack, e) := by
  cases stack with
  | nil => rfl
  | cons frame rest =>
    cases frame with
    | group => rfl
    | awaiting left op => rw [Parser.reduce, if_neg (Nat.not_le.mpr (h left op rest rfl))]

end Parser

/-- The values of a list are read up to its end. -/
theorem Parser.run_values {stack : List Frame} {e : Expression} (read vs : List Value) :
    run ⟨stack, .item e read⟩ (vs.flatMap fun v => [.comma, .value v]) =
      some ⟨stack, .item e (read ++ vs)⟩ := by
  induction vs generalizing read with
  | nil => rw [List.append_nil]; rfl
  | cons v vs ih =>
    have hstep : run ⟨stack, .item e read⟩ [.comma, .value v] =
        some ⟨stack, .item e (read ++ [v])⟩ := rfl
    rw [List.flatMap_cons, run_append, hstep, Option.bind_some, ih, List.append_assoc]
    rfl

/-- A token that binds as `level` completes the operators that bind at least as strongly. -/
theorem Parser.reduce_pending {level : Nat} {stack pending : List Frame} {x e : Expression}
    (hstack : Below level stack) (hpending : Pending level pending x e) :
    reduce level (pending ++ stack) x = (stack, e) := by
  rw [hpending.reduce (Nat.le_refl level), hstack.reduce]

/-- From an operand on, the tokens of a derivation are read as its tree, up to operators that
are left on the stack until it is seen that nothing binds the last operand more strongly. -/
theorem Derives.run {n : Nat} {ts : List Token} {e : Expression} (h : Derives n ts e)
    {stack : List Frame} (hstack : Parser.Below n stack) :
    ∃ pending x, Parser.run ⟨stack, .operand⟩ ts = some ⟨pending ++ stack, .read x⟩ ∧
      Parser.Pending n pending x e := by
  induction h generalizing stack with
  | column nodeAlias name => exact ⟨[], _, rfl, .none _⟩
  | literal v => exact ⟨[], _, rfl, .none _⟩
  | constant word => exact ⟨[], _, rfl, .none _⟩
  | @group ts e inner ih =>
    have hgroup : Parser.Below 0 (.group :: stack) := fun _ _ _ h => by cases h
    obtain ⟨pending, x, hrun, hpending⟩ := ih hgroup
    have hopen : Parser.run ⟨stack, .operand⟩ [.opening] = some ⟨.group :: stack, .operand⟩ := rfl
    have hclose : Parser.run ⟨pending ++ .group :: stack, .read x⟩ [.closing] =
        some ⟨stack, .read e⟩ := by
      simp [Parser.run, Parser.step, Parser.reduce_pending hgroup hpending]
    refine ⟨[], e, ?_, .none _⟩
    rw [Parser.run_append, Parser.run_append, hopen, Option.bind_some, hrun, Option.bind_some,
      hclose]
    rfl
  | @isNull ts e operand ih =>
    obtain ⟨pending, x, hrun, hpending⟩ := ih hstack
    refine ⟨[], _, ?_, .none _⟩
    rw [Parser.run_append, hrun]
    simp [Parser.run, Parser.step, Parser.reduce_pending hstack hpending]
  | @isNotNull ts e operand ih =>
    obtain ⟨pending, x, hrun, hpending⟩ := ih hstack
    refine ⟨[], _, ?_, .none _⟩
    rw [Parser.run_append, hrun]
    simp [Parser.run, Parser.step, Parser.reduce_pending hstack hpending]
  | @isIn ts e v vs operand ih =>
    obtain ⟨pending, x, hrun, hpending⟩ := ih hstack
    have hlist : Parser.run ⟨pending ++ stack, .read x⟩ [.isIn, .opening, .value v] =
        some ⟨stack, .item e [v]⟩ := by
      simp [Parser.run, Parser.step, Parser.reduce_pending hstack hpending]
    have hclose : Parser.run ⟨stack, .item e ([v] ++ vs)⟩ [.closing] =
        some ⟨stack, .read (.isIn e (v :: vs))⟩ := rfl
    refine ⟨[], _, ?_, .none _⟩
    rw [Parser.run_append, Parser.run_append, Parser.run_append, hrun, Option.bind_some, hlist,
      Option.bind_some, Parser.run_values, Option.bind_some, hclose]
    rfl
  | @binary op ls rs l r left right ihl ihr =>
    obtain ⟨pendingl, x, hrunl, hpendingl⟩ := ihl hstack
    -- The operator completes its left operand, and no operator below it.
    have hop : Parser.run ⟨pendingl ++ stack, .read x⟩ [.operator op] =
        some ⟨.awaiting l op :: stack, .operand⟩ := by
      simp [Parser.run, Parser.step, Parser.reduce_pending hstack hpendingl]
    have hright : Parser.Below (bindingLevel op + 1) (.awaiting l op :: stack) := by
      rintro left op' rest h
      cases h
      exact Nat.lt_succ_self _
    obtain ⟨pendingr, y, hrunr, hpendingr⟩ := ihr hright
    have hpending : Parser.Pending (bindingLevel op) (pendingr ++ [.awaiting l op]) y
        (.binary op l r) :=
      (hpendingr.mono (Nat.le_succ _)).under (Nat.le_refl _)
    refine ⟨_, y, ?_, hpending⟩
    rw [Parser.run_append, Parser.run_append, hrunl, Option.bind_some, hop, Option.bind_some,
      hrunr, List.append_assoc]
    rfl
  | weaken h ih =>
    have hstack' := fun left op rest heq => Nat.lt_succ_of_lt (hstack left op rest heq)
    obtain ⟨pending, x, hrun, hpending⟩ := ih hstack'
    exact ⟨pending, x, hrun, hpending.mono (Nat.le_succ _)⟩

theorem Derives.parse {ts : List Token} {e : Expression} (h : Derives 0 ts e) :
    (Parser.run ⟨[], .operand⟩ ts).bind (·.finish) = some e := by
  have hempty : Parser.Below 0 [] := fun _ _ _ h => by cases h
  obtain ⟨pending, x, hrun, hpending⟩ := h.run hempty
  rw [hrun, Option.bind_some, Parser.finish]
  simp only [Parser.reduce_pending hempty hpending]

/-- Tokens are read as one expression at most. -/
theorem Derives.unique {ts : List Token} {e e' : Expression} (h : Derives 0 ts e)
    (h' : Derives 0 ts e') : e = e' :=
  Option.some.inj (h.parse.symm.trans h'.parse)

end Sql

end EntityMap
