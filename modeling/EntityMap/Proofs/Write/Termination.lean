import EntityMap.Proofs.Write.Orphans
import EntityMap.Proofs.Write.Reports

/-!
# How deep deletions are nested

A deletion deletes the rows that point to its row before the row itself,
and so on below them. It keeps no record of the rows that it is about to
delete: only a row that points to itself is passed over. So it comes to
an end when the stored rows do not point to each other in a circle over
required foreign keys (`deletions_terminate`). When they do, it is
nested without end, whatever the depth that is allowed
(`not_deleted_of_circle`).

To say that no row is entered again, `deleteGuarded` keeps the rows that
are being deleted and does anything whatever where one of them is entered
again, or where the depth is exhausted. It does what the deletion does,
so that neither ever happens.
-/

namespace EntityMap

/-! ## Deletions that watch their path -/

namespace Cascade

variable {σ : Type} [Executor σ]

/-- Deletes a row below the rows of `path`, which are being deleted. A row that is entered again,
and one for which no depth is left, goes to `again`. -/
def deleteGuarded (rules : CascadeRules) (again : String → Value → Writing σ Unit) :
    Nat → List (String × Value) → String → Value → Writing σ Unit
  | 0, _, entity, key => again entity key
  | depth + 1, path, entity, key =>
    if (entity, key) ∈ path then again entity key
    else deleteBy rules (deleteGuarded rules again depth ((entity, key) :: path)) entity key

end Cascade

/-! ## Two runs that agree -/

variable {σ α β : Type} {rules : CascadeRules}

/-- An answer that is not due to the depth that is allowed. -/
def Shallow (answer : Except WriteError α) : Prop :=
  ∀ entity key, answer ≠ .error (.nestedTooDeep entity key)

namespace Shallow

theorem ok {a : α} : Shallow (.ok a) := nofun

theorem mapError {ε : Type} {answer : Except ε α} {f : ε → WriteError}
    (h : ∀ e entity key, f e ≠ .nestedTooDeep entity key) : Shallow (answer.mapError f) := by
  cases answer with
  | ok a => exact ok
  | error e => exact fun entity key heq => h e entity key (Except.error.inj heq)

theorem of_checked {answer : Except WriteError α} (h : Checked answer) : Shallow answer :=
  fun _ _ heq => h _ heq rfl

end Shallow

/-- From every cascade whose connection is held, two computations run alike: they answer the same,
and not that they are nested too deep, and leave the same cascade, whose connection is held. -/
def Writing.Agree (held : σ → Prop) (m m' : Writing σ α) (Q : α → Prop) : Prop :=
  ∀ c : Cascade σ, held c.work.connection →
    m'.run c = m.run c ∧ held (m.run c).2.work.connection ∧ Shallow (m.run c).1 ∧
      ∀ a, (m.run c).1 = .ok a → Q a

namespace Writing.Agree

variable {held : σ → Prop} {m m' : Writing σ α} {Q : α → Prop} {R : β → Prop}

theorem ofExcept {answer : Except WriteError α} (h : Shallow answer) :
    Agree held (Writing.ofExcept answer) (Writing.ofExcept answer : Writing σ α)
      (answer = .ok ·) :=
  fun _ hc => ⟨rfl, hc, h, fun _ ha => ha⟩

theorem throw {e : WriteError} (h : ∀ entity key, e ≠ .nestedTooDeep entity key) :
    Agree held (throw e : Writing σ α) (throw e) Q :=
  fun _ hc => ⟨rfl, hc, fun entity key heq => h entity key (Except.error.inj heq), nofun⟩

theorem throw_bind {e : WriteError} {f : α → Writing σ β}
    (h : ∀ entity key, e ≠ .nestedTooDeep entity key) :
    Agree held (MonadExcept.throw e >>= f : Writing σ β) (MonadExcept.throw e >>= f) R :=
  fun _ hc => ⟨rfl, hc, fun entity key heq => h entity key (Except.error.inj heq), nofun⟩

theorem pure {a : α} (h : Q a) : Agree held (pure a : Writing σ α) (pure a) Q :=
  fun _ hc => ⟨rfl, hc, nofun, fun _ ha => by cases ha; exact h⟩

theorem bind {f f' : α → Writing σ β} (hm : Agree held m m' Q)
    (hf : ∀ a, Q a → Agree held (f a) (f' a) R) : Agree held (m >>= f) (m' >>= f') R := by
  intro c hc
  obtain ⟨heq, hheld, hshallow, hQ⟩ := hm c hc
  rw [run_bind, run_bind, heq]
  rcases hrun : m.run c with ⟨e | a, c'⟩
  · rw [hrun] at hheld hshallow
    exact ⟨rfl, hheld, fun entity key herror => hshallow entity key (congrArg _
      (Except.error.inj herror)), nofun⟩
  · rw [hrun] at hheld hQ
    exact hf a (hQ a rfl) c' hheld

theorem forM {l : List α} {f f' : α → Writing σ Unit}
    (h : ∀ a ∈ l, Agree held (f a) (f' a) fun _ => True) :
    Agree held (l.forM f) (l.forM f') fun _ => True := by
  induction l with
  | nil => exact pure trivial
  | cons a rest ih =>
      show Agree held (f a >>= fun _ => rest.forM f) (f' a >>= fun _ => rest.forM f') _
      exact (h a (List.mem_cons_self ..)).bind fun _ _ =>
        ih fun b hb => h b (List.mem_cons_of_mem _ hb)

/-- A statement is sent to a held connection, and leaves one that is held. -/
theorem send {s : Statement} {call : Call} {answer : σ → Except ExecutionError α × σ}
    (hclosed : ∀ {connection}, held connection → held (answer connection).2) :
    Agree held (inWork (UnitOfWork.send s call answer)) (inWork (UnitOfWork.send s call answer))
      fun a => ∃ connection, held connection ∧ (answer connection).1 = .ok a := by
  intro c hc
  rw [run_inWork, UnitOfWork.run_send]
  split
  · refine ⟨rfl, hclosed hc, Shallow.mapError nofun, fun a ha => ⟨c.work.connection, hc, ?_⟩⟩
    exact Except.mapError_eq_ok_iff.mp (Except.mapError_eq_ok_iff.mp ha)
  · exact ⟨rfl, hc, nofun, nofun⟩

variable [Executor σ]

theorem selectKeys (hclosed : Executor.Closed held) (entity : String) (filter : Filter) :
    Agree held (Cascade.selectKeys rules entity filter) (Cascade.selectKeys rules entity filter)
      fun keys => ∃ connection s records, held connection ∧
        rules.keyQuery entity filter = .ok s ∧ (Executor.query s connection).1 = .ok records ∧
        keys = records.storedKeys := by
  unfold Cascade.selectKeys
  refine (ofExcept (.of_checked (CascadeRules.keyQuery_checked entity filter))).bind fun s hs => ?_
  refine (send (fun hheld => hclosed.query hheld s)).bind fun records hrecords => ?_
  obtain ⟨connection, hheld, hanswer⟩ := hrecords
  exact pure ⟨connection, s, records, hheld, hs, hanswer, records.distinctValues?_getD⟩

theorem executeKeyed (hclosed : Executor.Closed held) (t : Table) (op : Operation) (key : Value) :
    Agree held (Cascade.executeKeyed t op key) (Cascade.executeKeyed t op key)
      fun _ => True := by
  unfold Cascade.executeKeyed
  refine (ofExcept (Shallow.mapError nofun)).bind fun s _ => ?_
  refine (send (fun hheld => hclosed.execute hheld s)).bind fun n _ => ?_
  split
  · exact throw nofun
  · exact pure trivial

theorem release (hclosed : Executor.Closed held) {delete delete' : String → Value → Writing σ Unit}
    {o : Ownership} {key : Value}
    (h : o.foreignKey.nullable = false →
      Agree held (delete o.child.entity key) (delete' o.child.entity key) fun _ => True) :
    Agree held (Cascade.release o delete key) (Cascade.release o delete' key) fun _ => True := by
  unfold Cascade.release
  by_cases hnullable : o.foreignKey.nullable = true
  · rw [hnullable]
    exact (ofExcept (.of_checked (Table.permit_checked _ _))).bind
      fun _ _ => executeKeyed hclosed _ _ _
  · rw [Bool.not_eq_true] at hnullable
    rw [hnullable]
    exact h hnullable

end Writing.Agree

/-! ## Deletions come to an end -/

namespace Cascade

open Writing

variable [Executor σ] {held : σ → Prop} {rows : List (String × Value)}
  {points : String × Value → String × Value → Prop}

/-- Deletions agree on a row when they agree on the rows that point to it. -/
theorem deleteBy_agree (hreports : Reports rules held rows points)
    {delete delete' : String → Value → Writing σ Unit} {entity : String} {key : Value}
    (h : ∀ child ∈ rows, points (entity, key) child →
      Agree held (delete child.1 child.2) (delete' child.1 child.2) fun _ => True) :
    Agree held (deleteBy rules delete entity key) (deleteBy rules delete' entity key)
      fun _ => True := by
  have hclosed := hreports.toClosed
  unfold deleteBy
  refine (Agree.ofExcept (.of_checked (CascadeRules.keyedTable_checked entity))).bind
    fun keyed ht => ?_
  obtain ⟨t, keyColumn⟩ := keyed
  have hentity := (CascadeRules.mem_of_keyedTable ht).2
  refine (Agree.ofExcept (.of_checked (Table.permit_checked _ _))).bind fun _ _ => ?_
  dsimp only
  split
  · exact Agree.throw_bind nofun
  · refine (Agree.forM fun r hr => ?_).bind fun _ _ => Agree.executeKeyed hclosed _ _ _
    obtain ⟨hr, hinverse⟩ := List.mem_filter.mp hr
    unfold releaseChildren
    refine (Agree.ofExcept (.of_checked (CascadeRules.ownership_checked r))).bind fun o ho => ?_
    refine (Agree.selectKeys hclosed _ _).bind fun children hchildren => ?_
    refine Agree.forM fun child hchild => ?_
    obtain ⟨connection, s, records, hheld, hs, hanswer, rfl⟩ := hchildren
    obtain ⟨hstored, hself⟩ := List.mem_filter.mp hchild
    refine Agree.release hclosed fun hrequired => ?_
    have hchild := hreports.children hheld ht hr hinverse ho hrequired hs hanswer hstored
    rcases hchild with heq | ⟨hrow, hpoints⟩
    · obtain ⟨hchildEntity, hkey⟩ := Prod.mk.inj heq
      simp [hchildEntity, hkey, hentity] at hself
    · exact h _ hrow hpoints

/-- A deletion agrees with a guarded one, however that goes on with a row that is entered again, and
whatever depth either has left beyond the number of rows. -/
theorem deleteRow_agree (hreports : Reports rules held rows points)
    (again : String → Value → Writing σ Unit) {start : String × Value}
    (hfree : CircleFree points start) {entity : String} {key : Value}
    {path : List (String × Value)} (hpath : Descent rows points start ((entity, key) :: path))
    (depth depth' : Nat) (hdepth : rows.length < depth + path.length)
    (hdepth' : rows.length < depth' + path.length) :
    Agree held (deleteRow rules depth entity key) (deleteGuarded rules again depth' path entity key)
      fun _ => True := by
  have hlength := hpath.length_le hfree
  rw [List.length_cons] at hlength
  induction depth generalizing depth' entity key path with
  | zero => omega
  | succ depth ih =>
      obtain ⟨depth', rfl⟩ : ∃ n, depth' = n + 1 := ⟨depth' - 1, by omega⟩
      rw [deleteRow_succ, deleteGuarded, if_neg (hpath.notMem hfree)]
      refine deleteBy_agree hreports fun child hrow hpoints => ?_
      have hbelow := hpath.step hrow hpoints
      have hbound := hbelow.length_le hfree
      simp only [List.length_cons] at hbound
      refine ih hbelow depth' ?_ ?_ ?_ <;> rw [List.length_cons] <;> omega

/-- When no rows point to each other in a circle over required foreign keys: no deletion enters a
row that is being deleted already, neither in its own right nor when orphans are released; and
each comes to an end, nested no deeper than there are rows. -/
theorem deletions_terminate (hreports : Reports rules held rows points)
    (again : String → Value → Writing σ Unit) {c : Cascade σ} (hc : held c.work.connection) :
    (∀ entity key, CircleFree points (entity, key) → ∀ depth, rows.length < depth →
      (deleteGuarded rules again (rows.length + 1) [] entity key).run c =
          (deleteRow rules depth entity key).run c ∧
        Shallow ((deleteRow rules depth entity key).run c).1) ∧
    ∀ o parentKey kept, (∀ key, CircleFree points (o.child.entity, key)) →
      rows.length < rules.depth →
      (releaseOrphansBy rules (deleteGuarded rules again (rows.length + 1) []) o parentKey
            kept).run c =
          (releaseOrphans rules o parentKey kept).run c ∧
        Shallow ((releaseOrphans rules o parentKey kept).run c).1 := by
  constructor
  · intro entity key hfree depth hdepth
    have hagree := deleteRow_agree hreports again hfree .start depth (rows.length + 1)
      (by simpa using hdepth) (by simp)
    obtain ⟨heq, -, hshallow, -⟩ := hagree c hc
    exact ⟨heq, hshallow⟩
  · intro o parentKey kept hfree hdepth
    have hagree : Agree held (releaseOrphans rules o parentKey kept)
        (releaseOrphansBy rules (deleteGuarded rules again (rows.length + 1) []) o parentKey kept)
        fun _ => True := by
      refine (Agree.selectKeys hreports.toClosed _ _).bind fun children _ => ?_
      refine Agree.forM fun child _ => Agree.release hreports.toClosed fun _ => ?_
      exact deleteRow_agree hreports again (hfree child) .start rules.depth (rows.length + 1)
        (by simpa using hdepth) (by simp)
    obtain ⟨heq, -, hshallow, -⟩ := hagree c hc
    exact ⟨heq, hshallow⟩

end Cascade

/-- Two entities, each of which points to the other by a required foreign key. -/
def pairTables : List Table :=
  let key : Column :=
    { member := "Id", column := "id", type := .int64, primaryKey := true, default := .generated }
  [{ entity := "A", table := "as"
     columns := [key, { member := "BId", column := "b_id", type := .int64 }]
     relationships := [
       { name := "Bs", kind := .oneToMany, foreignKey := ⟨"B", "AId"⟩, primaryKey := ⟨"A", "Id"⟩ }]
     permissions := {} },
   { entity := "B", table := "bs"
     columns := [key, { member := "AId", column := "a_id", type := .int64 }]
     relationships := [
       { name := "As", kind := .oneToMany, foreignKey := ⟨"A", "BId"⟩, primaryKey := ⟨"B", "Id"⟩ }]
     permissions := {} }]

def pairRules : CascadeRules :=
  { catalog := ⟨pairTables, []⟩, identityInsert := false, depth := 10 }

/-- The row 2 points to the row 1, and the row 3 to the row 2. -/
def rowsInLine : Ledger :=
  ⟨[("bs", .int 1, [.int 2]), ("as", .int 2, [.int 3])]⟩

/-- The rows of either entity are asked for by a key as it is. -/
theorem pair_parameters {entity : String} {t : Table} {keyColumn : Column} {r : Relationship}
    {o : Ownership} {key : Value} {s : Statement}
    (ht : pairRules.keyedTable entity = .ok (t, keyColumn)) (hr : r ∈ t.relationships)
    (ho : pairRules.ownership r = .ok o)
    (hs : pairRules.keyQuery o.child.entity (o.childrenOf key) = .ok s)
    (hkey : key ∈ [Value.int 2, .int 3]) : s.parameters = [key] := by
  have htable := (CascadeRules.mem_of_keyedTable ht).1
  have hrun : ∀ t ∈ pairTables, ∀ r ∈ t.relationships, ∀ key ∈ [Value.int 2, .int 3],
      ((pairRules.ownership r).toOption.bind fun o =>
        ((pairRules.keyQuery o.child.entity (o.childrenOf key)).toOption.map (·.parameters))) =
          some [key] := by
    decide +kernel
  have hrun := hrun t htable r hr key hkey
  rw [ho] at hrun
  change Option.map _ (pairRules.keyQuery o.child.entity (o.childrenOf key)).toOption = _ at hrun
  rw [hs] at hrun
  exact Option.some.inj hrun

def rowsInLine.rank (row : String × Value) : Nat :=
  if row.2 = .int 3 then 2 else if row.2 = .int 2 then 1 else 0

theorem rowsInLine_rank {above row : String × Value} (h : rowsInLine.Points pairRules above row) :
    rowsInLine.rank above < rowsInLine.rank row := by
  obtain ⟨t, keyColumn, r, o, s, ht, hr, -, ho, -, hs, -, hrow, -⟩ := h
  obtain ⟨table, parent, keys, hmem, hrow, hparameters⟩ := Ledger.exists_of_mem_keys hrow
  have hkey := pair_parameters ht hr ho hs
  have hstored : parent = .int 1 ∧ row.2 = .int 2 ∨ parent = .int 2 ∧ row.2 = .int 3 := by
    simp only [rowsInLine, List.mem_cons, List.not_mem_nil, or_false, Prod.mk.injEq] at hmem
    rcases hmem with ⟨-, rfl, rfl⟩ | ⟨-, rfl, rfl⟩
    · exact .inl ⟨rfl, List.mem_singleton.mp hrow⟩
    · exact .inr ⟨rfl, List.mem_singleton.mp hrow⟩
  have hnot : ∀ key ∈ [Value.int 2, .int 3], above.2 = key → parent = key := by
    rintro key hmem rfl
    exact (List.singleton_inj.mp ((hkey hmem).symm.trans hparameters)).symm
  have habove2 := hnot (.int 2) (by decide)
  have habove3 := hnot (.int 3) (by decide)
  unfold rowsInLine.rank
  rcases hstored with ⟨rfl, hrow⟩ | ⟨rfl, hrow⟩
  · rw [hrow, if_neg fun h => absurd (habove3 h) (by decide),
      if_neg fun h => absurd (habove2 h) (by decide)]
    decide
  · rw [hrow, if_neg fun h => absurd (habove3 h) (by decide)]
    split <;> decide

/-- The three rows are deleted, whatever would be done with a row that is entered again. -/
theorem rowsInLine_terminates :
    let c : Cascade Ledger := { work := { connection := rowsInLine } }
    Reports pairRules (· = rowsInLine) (rowsInLine.rows pairRules) (rowsInLine.Points pairRules) ∧
      (∀ start, CircleFree (rowsInLine.Points pairRules) start) ∧
      (rowsInLine.rows pairRules).length < pairRules.depth ∧
      ∀ again,
        (Cascade.deleteGuarded pairRules again ((rowsInLine.rows pairRules).length + 1) [] "A"
            (.int 1)).run c = (Cascade.deleteRow pairRules 10 "A" (.int 1)).run c ∧
          Shallow ((Cascade.deleteRow pairRules 10 "A" (.int 1)).run c).1 ∧
          ∀ o parentKey kept,
            (Cascade.releaseOrphansBy pairRules (Cascade.deleteGuarded pairRules again
                ((rowsInLine.rows pairRules).length + 1) []) o parentKey kept).run c =
              (Cascade.releaseOrphans pairRules o parentKey kept).run c := by
  intro c
  have hfree := CircleFree.of_rank rowsInLine.rank fun _ _ => rowsInLine_rank
  have hdepth : (rowsInLine.rows pairRules).length < pairRules.depth := by decide
  refine ⟨rowsInLine.reports pairRules, hfree, hdepth, fun again => ?_⟩
  obtain ⟨hdelete, hrelease⟩ := Cascade.deletions_terminate (rowsInLine.reports pairRules) again
    (show c.work.connection = rowsInLine from rfl)
  obtain ⟨hrun, hshallow⟩ := hdelete "A" (.int 1) (hfree _) 10 hdepth
  exact ⟨hrun, hshallow, fun o parentKey kept =>
    (hrelease o parentKey kept (fun _ => hfree _) hdepth).1⟩

/-! ## Circles -/

namespace Cascade

open Writing

variable [Executor σ] {held : σ → Prop}

/-- Rows each of which another of them points to by a required foreign key, and is reported. -/
def Circling (rules : CascadeRules) (held : σ → Prop) (circle : String → Value → Prop) : Prop :=
  ∀ entity key, circle entity key → ∃ t keyColumn r o,
    rules.keyedTable entity = .ok (t, keyColumn) ∧ r ∈ t.relationships ∧
      r.isInverseFrom t.entity ∧ rules.ownership r = .ok o ∧ o.foreignKey.nullable = false ∧
      ∀ connection s records, held connection →
        rules.keyQuery o.child.entity (o.childrenOf key) = .ok s →
        (Executor.query s connection).1 = .ok records →
        ∃ child ∈ records.storedKeys, child ∉ o.selfKey t key ∧ circle o.child.entity child

/-- The events between two units of work are answered by held connections. -/
theorem answered_of_sends (hclosed : Executor.Closed held) {u u' : UnitOfWork σ} {es : List Event}
    (h : UnitOfWork.Sends rules u es u') (hheld : held u.connection) :
    ∀ e ∈ es, ∃ connection connection', held connection ∧ e.Answered connection connection' := by
  induction h with
  | done => exact fun _ he => (by cases he)
  | @event u _ connection e _ _ _ hanswered _ ih =>
      refine List.forall_mem_cons.mpr ⟨⟨u.connection, connection, hheld, hanswered⟩, ih ?_⟩
      exact hclosed.answered hheld hanswered

/-- A row of a circle has a row below it that would have to be deleted first, at any depth. -/
theorem not_deleted {circle : String → Value → Prop} (hcircling : Circling rules held circle)
    {depth : Nat} {entity : String} {key : Value} {es : List Event} (hrow : circle entity key)
    (hgenuine : ∀ e ∈ es, e.Genuine rules)
    (hanswered : ∀ e ∈ es, ∃ connection connection', held connection ∧
      e.Answered connection connection') :
    ¬ Deleted rules depth entity key (.ok ()) es := by
  induction depth generalizing entity key es with
  | zero => exact fun ⟨h, _⟩ => (by cases h)
  | succ depth ih =>
      intro h
      obtain ⟨t, keyColumn, r, o, ht, hr, hinverse, ho, hrequired, hreported⟩ :=
        hcircling entity key hrow
      cases h with
      | @swept _ _ _ above own ht' _ _ hswept _ =>
          cases ht.symm.trans ht'
          obtain ⟨below, hover, hsub⟩ :=
            hswept.exists_of_mem rfl (List.mem_filter.mpr ⟨hr, hinverse⟩)
          cases hover with
          | owned ho' hover =>
              cases ho.symm.trans ho'
              cases hover with
              | @answered s records _ _ released hkeys heach =>
                  obtain rfl := RecordSet.storedKeys_eq hkeys
                  have hmem := List.mem_append_left own (hsub _ (List.mem_cons_self ..))
                  obtain ⟨connection, _, hheld, hquery⟩ := hanswered _ hmem
                  obtain ⟨child, hstored, hself, hchild⟩ := hreported connection s records hheld
                    (hgenuine _ hmem) (congrArg Prod.fst hquery)
                  have horphan : child ∈ records.orphans (o.selfKey t key) :=
                    RecordSet.mem_orphans.mpr ⟨hstored, hself⟩
                  obtain ⟨deleted, hreleased, hsub'⟩ := heach.exists_of_mem rfl horphan
                  have hpart : ∀ e ∈ deleted, e ∈ above ++ own := fun e he =>
                    List.mem_append_left own (hsub e (List.mem_cons_of_mem _ (hsub' e he)))
                  cases hreleased with
                  | detached hnullable _ _ => rw [hrequired] at hnullable; cases hnullable
                  | deleted _ hdeleted =>
                      exact ih hchild (fun e he => hgenuine e (hpart e he))
                        (fun e he => hanswered e (hpart e he)) hdeleted

/-- Where rows point to each other in a circle over required foreign keys, none of them is ever
deleted, however deep deletions may be nested. -/
theorem not_deleted_of_circle {circle : String → Value → Prop} (hclosed : Executor.Closed held)
    (hcircling : Circling rules held circle) {entity : String} {key : Value}
    (hrow : circle entity key) (depth : Nat) {c : Cascade σ} (hc : held c.work.connection) :
    ((deleteRow rules depth entity key).run c).1 ≠ .ok () := by
  intro hok
  obtain ⟨es, hsends, hdeleted, -⟩ := (deleteRow_halts depth entity key).run c
  rw [hok] at hdeleted
  exact not_deleted hcircling hrow hsends.genuine (answered_of_sends hclosed hsends hc) hdeleted

end Cascade

/-- The rows 1 and 2 point to each other. -/
def rowsInCircle : Ledger :=
  ⟨[("bs", .int 1, [.int 2]), ("as", .int 2, [.int 1])]⟩

theorem rowsInCircle_circling : Cascade.Circling pairRules (· = rowsInCircle) fun entity key =>
    (entity, key) = ("A", .int 1) ∨ (entity, key) = ("B", .int 2) := by
  have hreported : ∀ (entity : String) (filter : Filter) (child : Value),
      (pairRules.keyQuery entity filter).toOption.map rowsInCircle.keys = some [child] →
      ∀ (connection : Ledger) s records, connection = rowsInCircle →
        pairRules.keyQuery entity filter = .ok s →
        (Executor.query s connection).1 = .ok records →
        records = Script.keySet [child] := by
    rintro entity filter child hkeys connection s records rfl hs hanswer
    rw [hs] at hkeys
    rw [← Option.some.inj hkeys]
    exact (Except.ok.inj hanswer).symm
  rintro entity key (heq | heq)
  · cases heq
    refine ⟨_, _, _, _, rfl, List.mem_cons_self .., rfl, rfl, rfl, ?_⟩
    intro connection s records hheld hs hanswer
    obtain rfl := hreported _ _ (.int 2) (by decide +kernel) connection s records hheld hs hanswer
    exact ⟨.int 2, by decide, by decide, .inr rfl⟩
  · cases heq
    refine ⟨_, _, _, _, rfl, List.mem_cons_self .., rfl, rfl, rfl, ?_⟩
    intro connection s records hheld hs hanswer
    obtain rfl := hreported _ _ (.int 1) (by decide +kernel) connection s records hheld hs hanswer
    exact ⟨.int 1, by decide, by decide, .inl rfl⟩

/-- Of two rows that point to each other, the one that is to be deleted is entered again while it
is being deleted, and no depth is enough to delete it. -/
theorem rowsInCircle_never_deleted :
    let c : Cascade Ledger := { work := { connection := rowsInCircle } }
    Definition.toCatalog ⟨[], pairTables⟩ = .ok pairRules.catalog ∧
      Reports pairRules (· = rowsInCircle) (rowsInCircle.rows pairRules)
        (rowsInCircle.Points pairRules) ∧
      ((Cascade.deleteGuarded pairRules (fun entity key => throw (.rowNotFound entity key)) 10 []
        "A" (.int 1)).run c).1 = .error (.rowNotFound "A" (.int 1)) ∧
      ∀ depth, ((Cascade.deleteRow pairRules depth "A" (.int 1)).run c).1 ≠ .ok () := by
  intro c
  refine ⟨rfl, rowsInCircle.reports pairRules, by decide +kernel, fun depth => ?_⟩
  exact Cascade.not_deleted_of_circle rowsInCircle.closed rowsInCircle_circling (.inl rfl) depth rfl

end EntityMap
