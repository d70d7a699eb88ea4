import EntityMap.Execution.Query
import EntityMap.Proofs.Execution.Answers
import EntityMap.Proofs.Execution.Protocol
import EntityMap.Proofs.Query.Included

/-!
# Loading included collections

A request with included paths is planned with one query for each route to
a collection (`Context.IncludesPlanned`), and these are executed one
after the other behind the rows of the request (`Loads`): each for the
keys that the set of its parent answers, in the order in which they are
first seen, and not at all where there is none.

The name under which a parent answers its keys is chosen when the
queries are planned and looked up when they are executed, in the set of
another query. It is found there as long as every set carries the
columns of its plan, which `ReadSets` keeps from one include to the next.
-/

namespace EntityMap

/-! ## Keys -/

namespace RecordSet

variable {s : RecordSet} {name : String}

/-- A record set with the columns of a plan. -/
def Carries (s : RecordSet) (p : Plan) : Prop :=
  ∀ c ∈ p.select, c.label.getD c.column ∈ s.columns

theorem exists_distinctValues? (h : name ∈ s.columns) :
    ∃ keys, s.distinctValues? name = some keys := by
  have hindex : (s.columnIndex? name).isSome := by
    simpa [columnIndex?] using h
  obtain ⟨index, hindex⟩ := Option.isSome_iff_exists.mp hindex
  exact ⟨_, by rw [distinctValues?, hindex]; rfl⟩

theorem mem_columns_of_carries {p : Plan} (h : s.Carries p)
    (hname : (p.columnPosition? name).isSome) : name ∈ s.columns := by
  have hexists : ∃ c ∈ p.select, c.label = some name := by
    simpa [Plan.columnPosition?] using hname
  obtain ⟨c, hc, hlabel⟩ := hexists
  have hcarried := h c hc
  rwa [hlabel, Option.getD_some] at hcarried

end RecordSet

/-! ## One statement -/

section

variable {σ : Type} [Executor σ] {style : LimitStyle} {p : Plan} {keys : List Value}
  {u u' : UnitOfWork σ} {records : RecordSet}

/-- What a connection answers to a plan, for whatever keys, carries the columns of the plan. -/
def Plan.AnsweredWhole (σ : Type) [Executor σ] (style : LimitStyle) (p : Plan) : Prop :=
  ∀ keys s, (p.withKeys keys).statement style = .ok s → ∀ (connection : σ) records,
    (Executor.query s connection).1 = .ok records → records.Carries p

/-- What comes of a plan that is executed: its statement is sent, if it can be written and the unit
of work is open, and the connection answers it or refuses. -/
inductive Plan.Executes (style : LimitStyle) (p : Plan) (u : UnitOfWork σ) :
    Except QueryError RecordSet → UnitOfWork σ → Prop
  | answered {s : Statement} {records : RecordSet} {connection : σ}
      (hstatement : p.statement style = .ok s) (hopen : u.isOpen)
      (hquery : Executor.query s u.connection = (.ok records, connection)) :
      Executes style p u (.ok records) { u with connection, calls := u.calls ++ [.query s] }
  | refused {s : Statement} {source : ExecutionError} {connection : σ}
      (hstatement : p.statement style = .ok s) (hopen : u.isOpen)
      (hquery : Executor.query s u.connection = (.error source, connection)) :
      Executes style p u (.error (.unitOfWork (.statement s.sql source)))
        { u with connection, calls := u.calls ++ [.query s] }
  | closed {s : Statement} (hstatement : p.statement style = .ok s) (hclosed : u.isOpen = false) :
      Executes style p u (.error (.unitOfWork .closed)) u
  | unwritten {e : StatementError} (hstatement : p.statement style = .error e) :
      Executes style p u (.error (.statement e)) u

namespace Plan

theorem executes_fetch (style : LimitStyle) (p : Plan) (u : UnitOfWork σ) :
    p.Executes style u ((p.fetch style).run u).1 ((p.fetch style).run u).2 := by
  unfold fetch
  rw [ExceptT.run_bind_state]
  cases hstatement : p.statement style with
  | error e => exact .unwritten hstatement
  | ok s =>
      show p.Executes style u
        (((UnitOfWork.query s : Working σ UnitOfWorkError RecordSet).run u).1.mapError _)
        ((UnitOfWork.query s : Working σ UnitOfWorkError RecordSet).run u).2
      rw [UnitOfWork.query, UnitOfWork.run_send]
      split
      · rename_i hopen
        rcases hquery : Executor.query s u.connection with ⟨source | records, connection⟩
        · exact .refused hstatement hopen hquery
        · exact .answered hstatement hopen hquery
      · rename_i hclosed
        exact .closed hstatement (by simpa using hclosed)

theorem Executes.not_missingColumn {answer : Except QueryError RecordSet}
    (h : p.Executes style u answer u') (set column : String) :
    answer ≠ .error (.missingColumn set column) := by
  cases h <;> simp

theorem Executes.carries (h : (p.withKeys keys).Executes style u (.ok records) u')
    (hwhole : p.AnsweredWhole σ style) : records.Carries p := by
  cases h with
  | answered hstatement hopen hquery =>
      exact hwhole keys _ hstatement u.connection records (congrArg (·.1) hquery)

theorem exists_withKeys (p : Plan) : ∃ keys, p.withKeys keys = p := by
  cases hkeys : p.keyRestriction with
  | none =>
      refine ⟨[], ?_⟩
      unfold withKeys
      rw [hkeys, Option.map_none, ← hkeys]
  | some r =>
      refine ⟨r.keys, ?_⟩
      unfold withKeys
      rw [hkeys, Option.map_some, ← hkeys]

theorem carries_noRows (p : Plan) : p.noRows.Carries p :=
  fun _ hc => List.mem_map_of_mem hc

/-- An answer to a plan with the columns of the plan, or a fault that misses none. -/
structure WholeAnswer (p : Plan) (answer : Except QueryError RecordSet) : Prop where
  found : ∀ set column, answer ≠ .error (.missingColumn set column)
  carries : ∀ records, answer = .ok records → records.Carries p

theorem Executes.wholeAnswer {answer : Except QueryError RecordSet}
    (h : (p.withKeys keys).Executes style u answer u') (hwhole : p.AnsweredWhole σ style) :
    p.WholeAnswer answer where
  found := h.not_missingColumn
  carries records hok := by
    rw [hok] at h
    exact h.carries hwhole

theorem wholeAnswer_fetch (hwhole : p.AnsweredWhole σ style) (u : UnitOfWork σ) :
    p.WholeAnswer ((p.fetch style).run u).1 := by
  obtain ⟨keys, hsame⟩ := p.exists_withKeys
  have hexecutes := p.executes_fetch style u
  rw [← hsame] at hexecutes
  have hanswer := hexecutes.wholeAnswer hwhole
  rwa [hsame] at hanswer

theorem wholeAnswer_fetchFor (hwhole : p.AnsweredWhole σ style) (keys : List Value)
    (u : UnitOfWork σ) : p.WholeAnswer ((p.fetchFor style keys).run u).1 := by
  unfold fetchFor
  split
  · refine ⟨fun set column herror => ?_, fun records hok => ?_⟩
    · cases herror
    · cases hok
      exact p.carries_noRows
  · exact ((p.withKeys keys).executes_fetch style u).wholeAnswer hwhole

end Plan

/-! ## One include after the other -/

/-- The keys for which an include is read: those that the set of its parent answers. -/
def IncludePlan.KeysFrom (i : IncludePlan) (sets : List NamedRecordSet) (keys : List Value) :
    Prop :=
  ∃ parent ∈ sets, parent.name = i.parent ∧ FirstSeen (parent.records.cells i.parentKeyLabel) keys

/-- What comes of executing includes behind the sets read so far. An include is executed for the
keys that its parent answers, and not at all where there is none. -/
inductive Loads (style : LimitStyle) : List NamedRecordSet → List IncludePlan → UnitOfWork σ →
    Except QueryError (List NamedRecordSet) → UnitOfWork σ → Prop
  | done {sets : List NamedRecordSet} {u : UnitOfWork σ} : Loads style sets [] u (.ok sets) u
  | skipped {sets : List NamedRecordSet} {i : IncludePlan} {rest : List IncludePlan}
      {answer : Except QueryError (List NamedRecordSet)} {u u' : UnitOfWork σ}
      (hkeys : i.KeysFrom sets [])
      (hrest : Loads style (sets ++ [{ name := i.path, records := i.plan.noRows }]) rest u answer
        u') : Loads style sets (i :: rest) u answer u'
  | executed {sets : List NamedRecordSet} {i : IncludePlan} {rest : List IncludePlan}
      {keys : List Value} {records : RecordSet}
      {answer : Except QueryError (List NamedRecordSet)} {u u₁ u' : UnitOfWork σ}
      (hkeys : i.KeysFrom sets keys) (hne : keys ≠ [])
      (hexecutes : (i.plan.withKeys keys).Executes style u (.ok records) u₁)
      (hrest : Loads style (sets ++ [{ name := i.path, records }]) rest u₁ answer u') :
      Loads style sets (i :: rest) u answer u'
  | failed {sets : List NamedRecordSet} {i : IncludePlan} {rest : List IncludePlan}
      {keys : List Value} {e : QueryError} {u u' : UnitOfWork σ}
      (hkeys : i.KeysFrom sets keys) (hne : keys ≠ [])
      (hexecutes : (i.plan.withKeys keys).Executes style u (.error e) u') :
      Loads style sets (i :: rest) u (.error e) u'

namespace Loads

variable {sets : List NamedRecordSet} {plans : List IncludePlan}
  {answer : Except QueryError (List NamedRecordSet)}

theorem not_missingColumn (h : Loads style sets plans u answer u') (set column : String) :
    answer ≠ .error (.missingColumn set column) := by
  induction h with
  | done => simp
  | skipped _ _ ih => exact ih
  | executed _ _ _ _ ih => exact ih
  | failed _ _ hexecutes => simpa using hexecutes.not_missingColumn set column

/-- One set is answered for each include, in their order. -/
theorem names {all : List NamedRecordSet} (h : Loads style sets plans u (.ok all) u') :
    all.map (·.name) = sets.map (·.name) ++ plans.map (·.path) := by
  generalize hanswer : (Except.ok all : Except QueryError (List NamedRecordSet)) = answer at h
  induction h with
  | done =>
      cases hanswer
      simp
  | skipped _ _ ih => simp [ih hanswer]
  | executed _ _ _ _ ih => simp [ih hanswer]
  | failed => cases hanswer

end Loads

/-- The sets that have been read: that of the plan to start with, and one for each include so far,
each with the columns of its plan. -/
structure ReadSets (parent : Plan) (before : List IncludePlan) (sets : List NamedRecordSet) :
    Prop where
  names : sets.map (·.name) = "" :: before.map (·.path)
  carries : ∀ s ∈ sets, (s.name = "" ∧ s.records.Carries parent) ∨
    ∃ j ∈ before, s.name = j.path ∧ s.records.Carries j.plan

namespace ReadSets

variable {ctx : Context} {start : Nat} {parent : Plan} {before rest : List IncludePlan}
  {i : IncludePlan} {sets : List NamedRecordSet}

theorem concat (h : ReadSets parent before sets) (hcarries : records.Carries i.plan) :
    ReadSets parent (before ++ [i]) (sets ++ [{ name := i.path, records }]) where
  names := by simp [h.names]
  carries := by
    refine List.forall_mem_append.mpr ⟨fun s hs => (h.carries s hs).imp_right ?_, ?_⟩
    · rintro ⟨j, hj, hname⟩
      exact ⟨j, List.mem_append_left _ hj, hname⟩
    · exact List.forall_mem_singleton.mpr
        (.inr ⟨i, List.mem_append_right _ (List.mem_singleton_self _), rfl, hcarries⟩)

/-- An include that hangs on one of the plans finds its keys in the set of that plan. -/
theorem exists_parentKeys (h : ReadSets parent before sets)
    (hnodup : (before.map (·.path)).Nodup) (hpaths : ∀ j ∈ before, j.path ≠ "")
    (hi : i.Hung ctx start parent [] before) :
    ∃ keys, Strategy.parentKeys i sets = .ok keys ∧ i.KeysFrom sets keys := by
  obtain ⟨upper, p, route, hparent, hi⟩ := hi
  have hthere : i.parent ∈ sets.map (·.name) := by
    rw [h.names, hi.parent]
    cases hparent with
    | start => exact List.mem_cons_self ..
    | earlier hj hpath => exact List.mem_cons_of_mem _ (List.mem_map.mpr ⟨_, hj, hpath⟩)
  obtain ⟨s, hfind⟩ : ∃ s, sets.find? (·.name = i.parent) = some s := by
    obtain ⟨s, hs, hname⟩ := List.mem_map.mp hthere
    exact Option.isSome_iff_exists.mp (List.find?_isSome.mpr ⟨s, hs, by simpa using hname⟩)
  have hs := List.mem_of_find?_eq_some hfind
  have hname : s.name = i.parent := by simpa using List.find?_some hfind
  have hcarries : s.records.Carries p := by
    have hparentPath := hname.trans hi.parent
    cases hparent with
    | start =>
        rcases h.carries s hs with ⟨-, hcarries⟩ | ⟨j, hj, hpath, -⟩
        · exact hcarries
        · exact absurd (hpath.symm.trans hparentPath) (hpaths j hj)
    | @earlier j _ hj hpath =>
        rcases h.carries s hs with ⟨hempty, -⟩ | ⟨j', hj', hpath', hcarries⟩
        · exact absurd (hpath.trans (hparentPath.symm.trans hempty)) (hpaths j hj)
        · have hsame : j'.path = j.path := hpath'.symm.trans (hparentPath.trans hpath.symm)
          obtain rfl := List.inj_on_of_nodup_map hnodup hj' hj hsame
          exact hcarries
  obtain ⟨keys, hkeys⟩ := RecordSet.exists_distinctValues?
    (RecordSet.mem_columns_of_carries hcarries hi.below.selected)
  refine ⟨keys, ?_, s, hs, hname, RecordSet.firstSeen_of_distinctValues? hkeys⟩
  unfold Strategy.parentKeys
  rw [hfind]
  show RecordSet.keys s.records _ _ = _
  rw [RecordSet.keys, hkeys]

/-- Each step reads one more set, so all includes are loaded behind what has been read. -/
theorem loads {plans : List IncludePlan} (hplans : plans = before ++ rest)
    (hhung : EachAfter (IncludePlan.Hung ctx start parent []) plans)
    (hnodup : (plans.map (·.path)).Nodup) (hpaths : ∀ i ∈ plans, i.path ≠ "")
    (hwhole : ∀ i ∈ plans, i.plan.AnsweredWhole σ style) (h : ReadSets parent before sets)
    (u : UnitOfWork σ) : Loads style sets rest u ((Strategy.runIncludes style sets rest).run u).1
      ((Strategy.runIncludes style sets rest).run u).2 := by
  induction rest generalizing before sets u with
  | nil => exact .done
  | cons i rest ih =>
      have hi : i ∈ plans := hplans ▸ List.mem_append_right _ (List.mem_cons_self ..)
      have hbefore : (before.map (·.path)).Nodup := by
        rw [hplans, List.map_append] at hnodup
        exact (List.nodup_append.mp hnodup).1
      obtain ⟨keys, hparent, hkeys⟩ := h.exists_parentKeys hbefore
        (fun j hj => hpaths j (hplans ▸ List.mem_append_left _ hj)) (hhung before i rest hplans)
      rw [List.append_cons] at hplans
      have hrun : (Strategy.runIncludes style sets (i :: rest) : Working σ QueryError _).run u =
          (i.plan.fetchFor style keys >>= fun records =>
            Strategy.runIncludes style (sets ++ [{ name := i.path, records }]) rest).run u := by
        rw [Strategy.runIncludes, hparent]
        rfl
      rw [hrun, ExceptT.run_bind_state]
      by_cases hnone : keys = []
      · obtain rfl := hnone
        exact .skipped hkeys (ih hplans (h.concat i.plan.carries_noRows) u)
      · have hfetch : (i.plan.fetchFor style keys : Working σ QueryError RecordSet) =
            (i.plan.withKeys keys).fetch style := by
          rw [Plan.fetchFor, if_neg (by simpa using hnone)]
        have hexecutes := Plan.executes_fetch style (i.plan.withKeys keys) u
        rw [hfetch]
        rcases hanswer : ((i.plan.withKeys keys).fetch style).run u with ⟨e | records, u₁⟩
        · rw [hanswer] at hexecutes
          exact .failed hkeys hnone hexecutes
        · rw [hanswer] at hexecutes
          exact .executed hkeys hnone hexecutes
            (ih hplans (h.concat (hexecutes.carries (hwhole i hi))) u₁)

end ReadSets

/-! ## The rows of the request -/

/-- The first phase of a strategy answers keys under their name. -/
theorem Request.selects_keyLabel {ctx ctx' : Context} {target : Nat} {r : Request} {s : Strategy}
    (h : (r.strategy target).run ctx = (.ok s, ctx')) (keysPlan rows : Plan)
    (hs : s = .twoPhase keysPlan rows) : (keysPlan.columnPosition? keyLabel).isSome := by
  obtain ⟨-, d, -, -, -, hstrategy⟩ := Request.strategy_eq_ok h
  rw [hs] at hstrategy
  obtain ⟨key, -, hkeys, -⟩ := Context.strategy_eq_twoPhase hstrategy
  obtain ⟨-, -, hdraft, -⟩ := Context.plan_eq_ok hkeys
  have hselect : keysPlan.select = (d.keysPhase key).select := congrArg Draft.select hdraft
  simp [Plan.columnPosition?, hselect, Draft.keysPhase, NodeColumn.withLabel]

/-- What a strategy answers has the columns of its result plan, and nothing is missing on the
way. -/
theorem Strategy.wholeAnswer_run {s : Strategy} (hwhole : ∀ p ∈ s.plans, p.AnsweredWhole σ style)
    (hkeys : ∀ keysPlan rows, s = .twoPhase keysPlan rows →
      (keysPlan.columnPosition? keyLabel).isSome) (u : UnitOfWork σ) :
    s.resultPlan.WholeAnswer ((s.run style).run u).1 := by
  cases s with
  | direct p => exact Plan.wholeAnswer_fetch (hwhole p (List.mem_singleton_self _)) u
  | twoPhase keysPlan rows =>
      have hpage := Plan.wholeAnswer_fetch (hwhole keysPlan (List.mem_cons_self ..)) u
      have hrows : rows.AnsweredWhole σ style := hwhole rows (by simp [plans])
      unfold Strategy.run
      rw [ExceptT.run_bind_state]
      rcases hrun : (keysPlan.fetch style).run u with ⟨e | page, u₁⟩
      · rw [hrun] at hpage
        have hfound : ∀ set column, e ≠ .missingColumn set column := fun set column he =>
          hpage.found set column (congrArg Except.error he)
        exact ⟨by simpa using hfound, fun _ hok => by cases hok⟩
      · rw [hrun] at hpage
        -- the page answers the keys, so they are not missing
        obtain ⟨keys, hdistinct⟩ := RecordSet.exists_distinctValues?
          (RecordSet.mem_columns_of_carries (hpage.carries page rfl) (hkeys keysPlan rows rfl))
        dsimp only
        rw [RecordSet.keys, hdistinct]
        exact Plan.wholeAnswer_fetchFor hrows keys u₁

/-! ## Requests with includes -/

/-- The queries that are planned for included paths, seen from the target of a request: one for
each route along a path that leads to a collection, and for each what its rows hang on. -/
structure Context.IncludesPlanned (ctx : Context) (target : Nat) (paths : List String)
    (plans : List IncludePlan) : Prop where
  nodup : (plans.map (·.path)).Nodup
  mem_iff : ∀ path, path ∈ plans.map (·.path) ↔ ∃ included ∈ paths, ∃ route,
    route <+: Path.segments included ∧ ctx.LeadsToCollection target route ∧ path = Path.join route
  parent : EachAfter (fun before i => ∃ above,
    ctx.NearestAbove target (Path.segments i.path) above ∧ i.parent = Path.join above ∧
      (i.parent = "" ∨ i.parent ∈ before.map (·.path))) plans
  restricted : ∀ i ∈ plans, ∃ column, ∀ keys,
    (i.plan.withKeys keys).keyRestriction = some { column, keys }

/-- What comes of executing a planned query with its includes. -/
structure PlannedQuery.LoadsIncludes (style : LimitStyle) (q : PlannedQuery) (u : UnitOfWork σ) :
    Prop where
  found : ∀ set column,
    ((q.strategy.runWithIncludes style q.includes).run u).1 ≠ .error (.missingColumn set column)
  named : ∀ sets, ((q.strategy.runWithIncludes style q.includes).run u).1 = .ok sets →
    sets.map (·.name) = "" :: q.includes.map (·.path)
  failed : ∀ e u₁, (q.strategy.run style).run u = (.error e, u₁) →
    (q.strategy.runWithIncludes style q.includes).run u = (.error e, u₁)
  loads : ∀ records u₁, (q.strategy.run style).run u = (.ok records, u₁) →
    Loads style [{ name := "", records }] q.includes u₁
      ((q.strategy.runWithIncludes style q.includes).run u).1
      ((q.strategy.runWithIncludes style q.includes).run u).2

namespace Context.PlannedBelow

variable {ctx : Context} {target : Nat} {parent : Plan} {paths : List String}
  {plans : List IncludePlan} {i : IncludePlan}

theorem includesPlanned (h : ctx.PlannedBelow target parent [] paths plans) :
    ctx.IncludesPlanned target paths plans where
  nodup := h.nodup
  mem_iff path := by
    constructor
    · intro hpath
      obtain ⟨i, hi, rfl⟩ := List.mem_map.mp hpath
      obtain ⟨included, hincluded, rest, hne, hrest, hparts, hpath⟩ := h.wanted i hi
      obtain ⟨above, p, route, hangs⟩ := h.exists_hangsOn hi
      have hsame : rest = above ++ route :=
        hparts.join_inj hangs.areParts (hpath.symm.trans hangs.path)
      exact ⟨included, hincluded, rest, hrest, hsame ▸ hangs.leadsToCollection, hpath⟩
    · rintro ⟨included, hincluded, route, hroute, ⟨hne, k, hk, hinverse⟩, rfl⟩
      obtain ⟨k', hk', hplanned⟩ := h.covered included hincluded route hne hroute
      obtain rfl := Option.some.inj (hk.symm.trans hk')
      obtain ⟨i, hi, hpath⟩ := hplanned hinverse
      exact List.mem_map.mpr ⟨i, hi, hpath⟩
  parent := by
    refine h.hung.mono fun before i => ?_
    rintro ⟨above, p, route, hparent, hangs⟩
    refine ⟨above, ?_, hangs.parent, ?_⟩
    · rw [hangs.path, hangs.areParts.segments_join (by simp [hangs.below.first.ne_nil])]
      exact hangs.below.first.nearestAbove hangs.along hangs.isCollection
    · cases hparent with
      | start => exact .inl hangs.parent
      | earlier hj hpath =>
          exact .inr (List.mem_map.mpr ⟨_, hj, hpath.trans hangs.parent.symm⟩)
  restricted i hi := by
    obtain ⟨above, p, route, hangs⟩ := h.exists_hangsOn hi
    obtain ⟨link, column, select, -, -, -, hkeys, -⟩ := hangs.ofCollection.restricted
    exact ⟨_, fun keys => by rw [Plan.withKeys, hkeys, Option.map_some]⟩

end Context.PlannedBelow

/-- The includes of a query are executed behind its rows, if there are any. -/
theorem PlannedQuery.loadsIncludes {ctx : Context} {target : Nat} {paths : List String}
    {q : PlannedQuery}
    (hplanned : ctx.PlannedBelow target q.strategy.resultPlan [] paths q.includes)
    (hwhole : ∀ i ∈ q.includes, i.plan.AnsweredWhole σ style) {u : UnitOfWork σ}
    (hroot : q.strategy.resultPlan.WholeAnswer ((q.strategy.run style).run u).1) :
    q.LoadsIncludes style u := by
  rcases hrows : (q.strategy.run style).run u with ⟨e | records, u₁⟩
  · have herror : (q.strategy.runWithIncludes style q.includes).run u = (.error e, u₁) := by
      rw [Strategy.runWithIncludes, ExceptT.run_bind_state, hrows]
    have hfound := hroot.found
    rw [hrows] at hfound
    exact
      { found := fun set column => by
          rw [herror]
          simpa using hfound set column
        named := fun sets hok => by
          rw [herror] at hok
          cases hok
        failed := fun e' u₂ heq => by
          rw [hrows] at heq
          cases heq
          exact herror
        loads := fun records u₂ heq => by
          rw [hrows] at heq
          cases heq }
  · have hloaded : (q.strategy.runWithIncludes style q.includes).run u =
        (Strategy.runIncludes style [{ name := "", records }] q.includes).run u₁ := by
      rw [Strategy.runWithIncludes, ExceptT.run_bind_state, hrows]
    have hread : ReadSets q.strategy.resultPlan [] [{ name := "", records }] := by
      refine ⟨rfl, List.forall_mem_singleton.mpr (.inl ⟨rfl, hroot.carries records ?_⟩)⟩
      rw [hrows]
    have hloads := hread.loads (List.nil_append _).symm hplanned.hung hplanned.nodup
      (fun _ => hplanned.path_ne_empty) hwhole u₁
    rw [← hloaded] at hloads
    exact
      { found := hloads.not_missingColumn
        named := fun sets hok => by
          rw [hok] at hloads
          exact hloads.names
        failed := fun e u₂ heq => by
          rw [hrows] at heq
          cases heq
        loads := fun records' u₂ heq => by
          rw [hrows] at heq
          cases heq
          exact hloads }

/-- Whatever is included is planned once, with the keys of the rows above it, and whatever an
executor answers, as long as each answer carries the columns of its plan: all of it is loaded, one
set after the other, for the keys that are there, and no name is looked up in vain. -/
theorem Request.includes_loaded {ctx ctx' : Context} {target : Nat} {r : Request} {q : PlannedQuery}
    (hctx : Context.Reachable ctx) (hrun : (r.planned target).run ctx = (.ok q, ctx'))
    (σ : Type) [Executor σ] (style : LimitStyle) :
    ctx'.IncludesPlanned target r.includes q.includes ∧
      ((∀ p ∈ q.strategy.plans ++ q.includes.map (·.plan), p.AnsweredWhole σ style) →
        ∀ u : UnitOfWork σ, q.LoadsIncludes style u) := by
  obtain ⟨-, hplanned⟩ := Request.planned_below hctx hrun
  obtain ⟨ctx₁, hstrategy, -⟩ := Request.planned_eq_ok hrun
  refine ⟨hplanned.includesPlanned, fun hwhole u => ?_⟩
  obtain ⟨hstrategyWhole, hincludesWhole⟩ := List.forall_mem_append.mp hwhole
  have hroot := Strategy.wholeAnswer_run hstrategyWhole (Request.selects_keyLabel hstrategy) u
  exact PlannedQuery.loadsIncludes hplanned
    (fun i hi => hincludesWhole _ (List.mem_map_of_mem hi)) hroot

/-! ## Chapters of books -/

/-- A connection that answers the same row to every query. -/
inductive OneRow where
  | mk

def oneRow : RecordSet :=
  { columns := ["Id", "AuthorId", "BookId"], types := [none, none, none]
    rows := [[.int 1, .int 1, .int 1]] }

instance : Executor OneRow where
  begin connection := (.ok (), connection)
  commit connection := (.ok (), connection)
  rollback connection := (.ok (), connection)
  query _ connection := (.ok oneRow, connection)
  scalar _ connection := (.ok .null, connection)
  execute _ connection := (.ok 0, connection)

/-- The books of authors are planned once, and their chapters behind them. -/
theorem includes_loaded_chapters : ∃ q ctx',
    (chaptersOfBooks.planned 0).run authorContext = (.ok q, ctx') ∧
      q.includes.map (·.path) = ["Books", "Books.Chapters"] ∧
      ctx'.IncludesPlanned 0 ["Books.Chapters", "Books"] q.includes ∧
      ∀ u : UnitOfWork OneRow, q.LoadsIncludes .limitOffset u := by
  have hplanned : (((chaptersOfBooks.planned 0).run authorContext).1.toOption.any fun q =>
      q.includes.map (·.path) = ["Books", "Books.Chapters"] &&
        (q.strategy.plans ++ q.includes.map (·.plan)).all fun p =>
          p.select.all fun c => oneRow.columns.contains (c.label.getD c.column)) := by
    decide +kernel
  rcases hrun : (chaptersOfBooks.planned 0).run authorContext with ⟨e | q, ctx'⟩
  · rw [hrun] at hplanned
    cases hplanned
  · rw [hrun] at hplanned
    obtain ⟨hpaths, hcarried⟩ := Bool.and_eq_true_iff.mp hplanned
    obtain ⟨hincludes, hloads⟩ :=
      Request.includes_loaded reachable_authorContext hrun OneRow .limitOffset
    refine ⟨q, ctx', rfl, of_decide_eq_true hpaths, hincludes, hloads ?_⟩
    intro p hp keys s hstatement connection records hok c hc
    obtain rfl : oneRow = records := Except.ok.inj hok
    exact List.contains_iff_mem.mp (List.all_eq_true.mp (List.all_eq_true.mp hcarried p hp) c hc)

end

end EntityMap
