import EntityMap.Proofs.Write.Reconciliation
import EntityMap.Proofs.Write.RestrainedBeside

/-!
# Permissions are kept

A save executes operations for a whole tree of records, and for stored rows
that it only learns of by its queries. Saves are restrained step by step of
their tree (`Cascade.saveRecord_restrained`), and so each call of a
repository keeps to what is permitted: it executes nothing else, and when
it needs something else it is refused and not committed
(`Repository.permissions_kept`).
-/

namespace EntityMap

variable {σ : Type} [Executor σ] {γ α β : Type} {base : CascadeRules} {S : CascadeRules → Prop}

namespace Cascade

open Writing Saving

/-- A save under rules that differ in what they permit. -/
abbrev SaveRestrained (base : CascadeRules) (S : CascadeRules → Prop)
    (m : CascadeRules → Saving σ (Except WriteError α × β)) : Prop :=
  Saving.Restrained base S (fun saved => failure? saved.1) m

/-! ## One record, one reference, one collection, one item -/

theorem saveOwn_restrained {t : Table} (ht : base.catalog.table t.entity = .ok t) (p : Placement)
    (keyColumn : Column) {collections : List (String × List Record)}
    (hcollections : ∀ values isNew, SaveRestrained base S fun rules =>
      (saveCollections rules (rules.restrict t) values isNew collections : Saving σ _))
    (referred : Named Value × List (String × Option Record)) (done : Unit) :
    SaveRestrained base S fun rules =>
      (saveOwn rules p (rules.restrict t) keyColumn collections referred done :
        Saving σ _) := by
  have hrow := writeRow_restrained (S := S) (σ := σ) ht keyColumn referred.1 p.aside
  refine Saving.Restrained.onward hrow fun row => ?_
  exact (hcollections _ row.2).map fun saved => failure?_map saved.1 _

theorem saveRecord_step_restrained {name : String} {values : Named Value}
    {references : List (String × Option Record)} {collections : List (String × List Record)}
    (p : Placement)
    (hreferences : ∀ t values, SaveRestrained base S fun rules =>
      (saveReferences rules (rules.restrict t) values references : Saving σ _))
    (hcollections : ∀ t values isNew, SaveRestrained base S fun rules =>
      (saveCollections rules (rules.restrict t) values isNew collections :
        Saving σ _)) :
    SaveRestrained base S fun rules =>
      (saveRecord rules p (.mk name values references collections) : Saving σ _) := by
  cases ht : base.keyedTable p.entity with
  | error e =>
      refine Saving.Restrained.congr (.pure (.error e, .mk p.entity (p.place values) references
        collections)) fun rules hpeer => ?_
      have hnone : rules.keyedTable p.entity = .error e := by
        rw [hpeer.keyedTable_eq, ht]
        rfl
      rw [saveRecord, hnone]
  | ok keyed =>
      obtain ⟨t, keyColumn⟩ := keyed
      refine Saving.Restrained.congr ?_ fun rules hpeer =>
        saveRecord_eq (hpeer.keyedTable_eq_ok ht) name values references collections
      refine (hreferences t _).onwardWith fun referred done => ?_
      exact saveOwn_restrained (CascadeRules.table_entity_of_keyedTable ht) p keyColumn
        (hcollections t) referred done

theorem saveReferences_none_restrained {t : Table} {values : Named Value} {name : String}
    {rest : List (String × Option Record)}
    (hrest : ∀ values, SaveRestrained base S fun rules =>
      (saveReferences rules (rules.restrict t) values rest : Saving σ _)) :
    SaveRestrained base S fun rules =>
      (saveReferences rules (rules.restrict t) values ((name, none) :: rest) :
        Saving σ _) := by
  have hreference : ∀ rules : CascadeRules,
      referenceOf (rules.restrict t) name = referenceOf t name := fun _ => rfl
  simp only [saveReferences, hreference]
  cases referenceOf t name with
  | error e => exact .pure _
  | ok reference => exact (hrest _).map fun _ => rfl

theorem saveReferences_some_restrained {t : Table} {values : Named Value} {name : String}
    {r : Record} {rest : List (String × Option Record)}
    (hrecord : ∀ p, SaveRestrained base S fun rules =>
      (saveRecord rules p r : Saving σ _))
    (hrest : ∀ values, SaveRestrained base S fun rules =>
      (saveReferences rules (rules.restrict t) values rest : Saving σ _)) :
    SaveRestrained base S fun rules =>
      (saveReferences rules (rules.restrict t) values ((name, some r) :: rest) :
        Saving σ _) := by
  have hreference : ∀ rules : CascadeRules,
      referenceOf (rules.restrict t) name = referenceOf t name := fun _ => rfl
  cases hname : referenceOf t name with
  | error e =>
      simp only [saveReferences, hreference, hname]
      exact .pure _
  | ok reference =>
      obtain ⟨relationship, foreignKey⟩ := reference
      have hadopted : ∀ rules : CascadeRules,
          adopt (rules.restrict t) name .referenceTarget relationship.primaryKey.entity r =
            adopt t name .referenceTarget relationship.primaryKey.entity r := fun _ => rfl
      cases hadopt : adopt t name .referenceTarget relationship.primaryKey.entity r with
      | error e =>
          simp only [saveReferences, hreference, hname, hadopted, hadopt]
          exact .pure _
      | ok placement =>
          refine Saving.Restrained.congr ?_ fun rules _ => saveReferences_cons_eq
            ((hreference rules).trans hname) ((hadopted rules).trans hadopt) values rest
          refine (hrecord placement).onwardWith fun r key => ?_
          exact (hrest _).map fun _ => rfl

theorem saveItems_cons_restrained {t : Table} {name : String} {o : Ownership} {parentKey : Value}
    {item : Record} {rest : List Record}
    (hrecord : ∀ p, SaveRestrained base S fun rules =>
      (saveRecord rules p item : Saving σ _))
    (hrest : SaveRestrained base S fun rules =>
      (saveItems rules (rules.restrict t) name (rules.restrictChild o) parentKey rest :
        Saving σ _)) :
    SaveRestrained base S fun rules =>
      (saveItems rules (rules.restrict t) name (rules.restrictChild o) parentKey (item :: rest) :
        Saving σ _) := by
  have hadopted : ∀ rules : CascadeRules,
      adopt (rules.restrict t) name .collectionItem (rules.restrictChild o).child.entity item =
        adopt t name .collectionItem o.child.entity item := fun _ => rfl
  cases hadopt : adopt t name .collectionItem o.child.entity item with
  | error e =>
      simp only [saveItems, hadopted, hadopt]
      exact .pure _
  | ok placement =>
      refine Saving.Restrained.congr ?_ fun rules _ =>
        saveItems_cons_eq ((hadopted rules).trans hadopt) rest
      refine (hrecord { placement with foreignKey := some (o.foreignKey, parentKey) }).onwardWith
        fun item key => ?_
      exact hrest.map fun saved => failure?_map saved.1 _

theorem saveCollection_step_restrained {t : Table} {values : Named Value} {isNew : Bool}
    {name : String} {items : List Record}
    (hitems : ∀ o parentKey, SaveRestrained base S fun rules =>
      (saveItems rules (rules.restrict t) name (rules.restrictChild o) parentKey items :
        Saving σ _)) :
    SaveRestrained base S fun rules =>
      (saveCollection rules (rules.restrict t) values isNew (name, items) : Saving σ _) := by
  have hcollection : ∀ rules : CascadeRules, rules.Peer base →
      collectionOf rules (rules.restrict t) name =
        (collectionOf base t name).map rules.restrictChild := by
    intro rules hpeer
    have hnavigation : (rules.restrict t).navigation name true = t.navigation name true := rfl
    unfold collectionOf
    rw [hnavigation]
    cases t.navigation name true with
    | error e => rfl
    | ok r => exact hpeer.ownership_eq r
  cases ho : collectionOf base t name with
  | error e =>
      refine Saving.Restrained.congr (.pure (.error e, name, items)) fun rules hpeer => ?_
      rw [saveCollection, hcollection rules hpeer, ho]
      rfl
  | ok o =>
      have hfound : ∀ rules : CascadeRules, rules.Peer base →
          collectionOf rules (rules.restrict t) name = .ok (rules.restrictChild o) := by
        intro rules hpeer
        rw [hcollection rules hpeer, ho]
        rfl
      refine Saving.Restrained.congr ?_ fun rules hpeer =>
        saveCollection_ok (hfound rules hpeer) values isNew items
      refine (hitems o (Record.valueOf values o.parentMember)).onwardWith fun items kept => ?_
      have hchild := CascadeRules.table_entity_of_keyedTable (ownership_of_collectionOf ho)
      exact (reconcile_restrained hchild (Record.valueOf values o.parentMember) isNew kept).map
        (f := fun released => (released, name, items)) fun _ => rfl

/-- The collections of a record are restrained beside each other when each of them is. -/
theorem saveCollections_step_restrained {t : Table} {values : Named Value} {isNew : Bool}
    {collections : List (String × List Record)}
    (h : ∀ collection ∈ collections, SaveRestrained base S fun rules =>
      (saveCollection rules (rules.restrict t) values isNew collection : Saving σ _)) :
    SaveRestrained base S fun rules =>
      (saveCollections rules (rules.restrict t) values isNew collections : Saving σ _) := by
  have hstrands : List.Forall₂ (Strand.Follow base fun rules => rules.Peer base ∧ S rules)
      (collections.map fun collection => Strand.waiting collection
        (saveCollection base.unrestricted (base.unrestricted.restrict t) values isNew collection))
      (collections.map fun collection rules => (Strand.waiting collection
        (saveCollection rules (rules.restrict t) values isNew collection) : Strand σ _)) := by
    rw [List.forall₂_map_left_iff, List.forall₂_map_right_iff, List.forall₂_same]
    exact fun collection hmem => .waiting (fun _ _ => rfl) (h collection hmem)
  have htogether : ∀ rules : CascadeRules, rules.Peer base →
      (saveCollections rules (rules.restrict t) values isNew collections : Saving σ _) =
        together base.maxParallelCollections (collections.map fun collection => .waiting collection
          (saveCollection rules (rules.restrict t) values isNew collection)) := by
    intro rules hpeer
    unfold saveCollections
    rw [hpeer.maxParallelCollections_eq, collectionSaves_eq_map]
  have hfollow : SaveRestrained base S fun rules : CascadeRules =>
      together base.maxParallelCollections (collections.map fun collection =>
        (.waiting collection (saveCollection rules (rules.restrict t) values isNew collection) :
          Strand σ (String × List Record))) := by
    refine (together_follow base.maxParallelCollections hstrands).congr fun rules _ => ?_
    rw [List.map_map]
    rfl
  exact hfollow.congr htogether

/-! ## The whole tree -/

-- The recursion is that of the records: each case is the lemma of its step.
mutual

theorem saveRecord_restrained (p : Placement) : (r : Record) →
    SaveRestrained base S fun rules => (saveRecord rules p r : Saving σ _)
  | .mk _ _ references collections =>
      saveRecord_step_restrained p (fun _ _ => saveReferences_restrained references)
        fun _ _ _ => saveCollections_step_restrained (collectionSaves_restrained collections)
termination_by structural r => r

theorem saveReferences_restrained {t : Table} {values : Named Value} :
    (references : List (String × Option Record)) → SaveRestrained base S fun rules =>
      (saveReferences rules (rules.restrict t) values references : Saving σ _)
  | [] => by
      simp only [saveReferences]
      exact .pure _
  | (_, none) :: rest => saveReferences_none_restrained fun _ => saveReferences_restrained rest
  | (_, some r) :: rest =>
      saveReferences_some_restrained (fun p => saveRecord_restrained p r) fun _ =>
        saveReferences_restrained rest
termination_by structural references => references

theorem collectionSaves_restrained {t : Table} {values : Named Value} {isNew : Bool} :
    (collections : List (String × List Record)) → ∀ collection ∈ collections,
      SaveRestrained base S fun rules =>
        (saveCollection rules (rules.restrict t) values isNew collection : Saving σ _)
  | [] => List.forall_mem_nil _
  | (_, items) :: rest =>
      List.forall_mem_cons.mpr ⟨saveCollection_step_restrained fun _ _ =>
        saveItems_restrained items, collectionSaves_restrained rest⟩
termination_by structural collections => collections

theorem saveItems_restrained {t : Table} {name : String} {o : Ownership} {parentKey : Value} :
    (items : List Record) → SaveRestrained base S fun rules =>
      (saveItems rules (rules.restrict t) name (rules.restrictChild o) parentKey items :
        Saving σ _)
  | [] => by
      simp only [saveItems]
      exact .pure _
  | item :: rest =>
      saveItems_cons_restrained (fun p => saveRecord_restrained p item)
        (saveItems_restrained rest)
termination_by structural items => items

end

end Cascade

/-! ## Calls of a repository -/

/-- A cascade leaves a transaction that has begun open and active. -/
theorem UnitOfWork.Sends.of_begun {rules : CascadeRules} {timeout : Nat} {start : σ}
    {es : List Event} {work : UnitOfWork σ} (h : Sends rules (.begun timeout start) es work) :
    work.isOpen = true ∧ work.state = .active ∧
      work.calls = [.timeout timeout, .begin] ++ es.map Event.call :=
  ⟨h.isOpen_eq, h.state_eq, h.calls_eq⟩

namespace Repository

open Writing

/-- The same repository where everything is permitted. -/
def unrestricted (repository : Repository) : Repository :=
  { repository with catalog := repository.catalog.unrestricted }

/-- Between its begin and its end, a unit of work sends just these events. -/
def Carries (rules : CascadeRules) (timeout : Nat) (es : List Event) (work : UnitOfWork σ) : Prop :=
  (∀ e ∈ es, e.Genuine rules) ∧ ∃ ending : List Call,
    work.calls = [.timeout timeout, .begin] ++ es.map Event.call ++ ending ∧
    ∀ call ∈ ending, ¬call.isStatement

/-- A call answers an operation that is not permitted, and is not committed. -/
structure IsRefused (rules : CascadeRules) (failure? : γ → Option WriteError)
    (run : γ × UnitOfWork σ) : Prop where
  error : ∃ e, failure? run.1 = some e ∧ rules.Refuses e
  uncommitted : Call.commit ∉ run.2.calls

/-- How a call keeps to what is permitted, beside the call where everything is permitted, which
sends `needed`. -/
structure Guarded (rules : CascadeRules) (timeout : Nat) (failure? : γ → Option WriteError)
    (needed : List Event) (free run : γ × UnitOfWork σ) : Prop where
  /-- It sends the first of these events, and all of those are permitted. -/
  permitted : ∃ es, es <+: needed ∧ Carries rules timeout es run.2 ∧ ∀ e ∈ es, e.Permitted rules
  /-- It is refused when one of these events is not permitted. -/
  refused : (∃ e ∈ needed, ¬e.Permitted rules) → IsRefused rules failure? run
  /-- It goes the same way unless it is refused. -/
  unhindered : run = free ∨ IsRefused rules failure? run

/-- What a call needs is one list of events in all repositories that differ from `base` at most in
what is permitted, and in each of them the call keeps to that. -/
def Restricted (failure? : γ → Option WriteError) (base : Repository)
    (call : Repository → γ × UnitOfWork σ) : Prop :=
  ∃ needed,
    Carries base.rules base.settings.commandTimeoutMs needed (call base.unrestricted).2 ∧
    ∀ repository : Repository, repository.unrestricted = base.unrestricted →
      Guarded repository.rules repository.settings.commandTimeoutMs failure? needed
        (call base.unrestricted) (call repository)

omit [Executor σ] in
/-- Another form of the same answer. -/
theorem Restricted.map {δ : Type} {failure? : γ → Option WriteError}
    {failure?' : δ → Option WriteError} {base : Repository} {f : γ → δ}
    {call : Repository → γ × UnitOfWork σ} (h : Restricted failure? base call)
    (hf : ∀ a, failure?' (f a) = failure? a) :
    Restricted failure?' base fun repository => (f (call repository).1, (call repository).2) := by
  obtain ⟨needed, hcarries, hguarded⟩ := h
  refine ⟨needed, hcarries, fun repository hpeer => ?_⟩
  obtain ⟨hpermitted, hrefused, hunhindered⟩ := hguarded repository hpeer
  have hmap : IsRefused repository.rules failure? (call repository) →
      IsRefused repository.rules failure?' (f (call repository).1, (call repository).2) := by
    rintro ⟨⟨e, he, hrefuses⟩, huncommitted⟩
    exact ⟨⟨e, (hf _).trans he, hrefuses⟩, huncommitted⟩
  exact ⟨hpermitted, fun hneeded => hmap (hrefused hneeded),
    hunhindered.imp (congrArg fun run : γ × UnitOfWork σ => (f run.1, run.2)) hmap⟩

theorem finish_carries {rules : CascadeRules} {timeout : Nat} {start : σ} {es : List Event}
    {work : UnitOfWork σ} (hsends : UnitOfWork.Sends rules (.begun timeout start) es work)
    (result : Except WriteError α) : Carries rules timeout es (finish result work).2 := by
  obtain ⟨hopen, hactive, hcalls⟩ := hsends.of_begun
  refine ⟨hsends.genuine, ?_⟩
  cases result with
  | error e =>
      refine ⟨[.rollback], ?_, by simp [Call.isStatement]⟩
      rw [(Prod.mk.inj (finish_error hopen hactive e)).2, hcalls]
  | ok a =>
      have hfinish := finish_ok hopen hactive a
      rw [hcalls] at hfinish
      cases hcommit : (Executor.commit work.connection).1 with
      | ok =>
          rw [hcommit] at hfinish
          exact ⟨[.commit], (Prod.mk.inj hfinish).2, by simp [Call.isStatement]⟩
      | error source =>
          rw [hcommit] at hfinish
          exact ⟨[.commit, .rollback], (Prod.mk.inj hfinish).2, by simp [Call.isStatement]⟩

/-- What fails is not committed. -/
theorem not_mem_commit_finish {rules : CascadeRules} {timeout : Nat} {start : σ} {es : List Event}
    {work : UnitOfWork σ} (hsends : UnitOfWork.Sends rules (.begun timeout start) es work)
    {result : Except WriteError α} {e : WriteError} (he : failure? result = some e) :
    failure? (finish result work).1 = some e ∧ Call.commit ∉ (finish result work).2.calls := by
  obtain ⟨hopen, hactive, hcalls⟩ := hsends.of_begun
  cases result with
  | ok a => cases he
  | error e' =>
      obtain ⟨hanswer, hlast⟩ := Prod.mk.inj (finish_error (α := α) hopen hactive e')
      rw [hanswer, hlast, hcalls]
      refine ⟨he, fun hcommit => ?_⟩
      have hmem : Call.commit ∈ es.map Event.call := by simpa using hcommit
      obtain ⟨event, -, hcall⟩ := List.mem_map.mp hmem
      have hstatement := event.isStatement_call
      rw [hcall] at hstatement
      cases hstatement

/-- What a repository has in common with those that permit something else. -/
theorem peer_of_unrestricted_eq {base repository : Repository}
    (h : repository.unrestricted = base.unrestricted) :
    repository.rules.Peer base.rules ∧ repository.settings = base.settings :=
  ⟨congrArg Repository.rules h, (congrArg Repository.settings h :
    repository.unrestricted.settings = base.unrestricted.settings)⟩

omit [Executor σ] in
theorem start_eq_of_unrestricted_eq {base repository : Repository}
    (h : repository.unrestricted = base.unrestricted) (connection : σ) :
    repository.start connection = base.start connection :=
  (congrArg (·.start connection) h :
    repository.unrestricted.start connection = base.unrestricted.start connection)

theorem transact_restricted (base : Repository) (connection : σ)
    {m : CascadeRules → Saving σ (Except WriteError α)}
    (h : Saving.Restrained base.rules (fun _ => True) failure? m) :
    Restricted failure? base fun repository =>
      repository.transact connection (m repository.rules) := by
  unfold Restricted
  simp only [transact_eq]
  rcases Executor.begin connection with ⟨source | _, start⟩
  · refine ⟨[], ⟨by simp, [], rfl, by simp⟩, fun repository hsame => ?_⟩
    dsimp only
    rw [(peer_of_unrestricted_eq hsame).2, start_eq_of_unrestricted_eq hsame]
    exact ⟨⟨[], List.prefix_rfl, ⟨by simp, [], rfl, by simp⟩, by simp⟩, by simp, .inl rfl⟩
  · obtain ⟨needed, hsends, hkeeps⟩ := h.run (base.start start)
    refine ⟨needed, finish_carries hsends _, fun repository hsame => ?_⟩
    obtain ⟨hpeer, hsettings⟩ := peer_of_unrestricted_eq hsame
    dsimp only
    rw [hsettings, start_eq_of_unrestricted_eq hsame]
    cases hkeeps repository.rules hpeer trivial with
    | same hanswer hcascade hpermitted =>
        have hrun : (m repository.rules).run (base.start start) =
            (m base.rules.unrestricted).run (base.start start) := by
          refine Prod.ext ?_ hcascade
          obtain hanswer | ⟨e, he, he'⟩ := hanswer
          · exact hanswer
          · rw [eq_error_of_failure? he, eq_error_of_failure? he']
        refine ⟨⟨needed, List.prefix_rfl, ?_, hpermitted⟩, ?_, .inl ?_⟩
        · rw [hrun]
          exact finish_carries (hsends.of_peer hpeer) _
        · rintro ⟨e, he, hforbidden⟩
          exact absurd (hpermitted e he) hforbidden
        · rw [hrun]
          rfl
    | @refused es rest e hneeded hsends hpermitted he hrefused =>
        obtain ⟨hanswer, huncommitted⟩ := not_mem_commit_finish hsends he
        have hcall : IsRefused repository.rules failure? (finish
            ((m repository.rules).run (base.start start)).1
            ((m repository.rules).run (base.start start)).2.work) :=
          ⟨⟨e, hanswer, hrefused⟩, huncommitted⟩
        exact ⟨⟨es, ⟨rest, hneeded⟩, finish_carries hsends _, hpermitted⟩, fun _ => hcall,
          .inr hcall⟩

theorem save_restricted (base : Repository) (connection : σ) (r : Record) :
    Restricted (fun saved => failure? saved.1) base fun repository =>
      repository.save connection r := by
  have hsaved : Saving.Restrained base.rules (fun _ => True) failure? fun rules =>
      ((fun ran => ran.1.map fun key => (key, ran.2)) <$> Cascade.save rules r :
        Saving σ (Except WriteError (Value × Record))) :=
    (Cascade.saveRecord_restrained { entity := r.entity } r).map fun ran =>
      failure?_map ran.1 fun key => (key, ran.2)
  have hback : ∀ answer : Except WriteError (Value × Record),
      failure? (handedBack r answer).1 = failure? answer := fun answer => by cases answer <;> rfl
  simp only [save_eq]
  exact (transact_restricted base connection hsaved).map hback

/-- Whatever is saved, deleted or changed, and whatever the connection answers: each call of a
repository inserts, updates, patches, detaches and deletes only what is permitted on the entity of
the row, and when it needs more than that, it answers which operation is not permitted, and is not
committed. -/
theorem permissions_kept (base : Repository) (connection : σ) :
    (∀ r : Record, Restricted (fun saved => failure? saved.1) base fun repository =>
      repository.save connection r) ∧
    (∀ r : Record, Restricted failure? base fun repository => repository.delete connection r) ∧
    ∀ (entity : String) (key : Value) (changes : Named Value),
      Restricted failure? base fun repository =>
        repository.patch connection entity key changes := by
  refine ⟨save_restricted base connection, fun r => ?_, fun entity key changes => ?_⟩
  · exact transact_restricted base connection (Cascade.delete_restrained r)
  · exact transact_restricted base connection (Cascade.patch_restrained entity key changes)

/-! ## Teams that last -/

/-- Companies whose teams must not be deleted. -/
def lastingTeams : Repository :=
  { catalog := ⟨Cascade.companyTables.map fun t =>
      if t.entity = "Team" then { t with permissions := { delete := false } } else t, []⟩
    settings := {}, depth := 10 }

-- A team only comes up in the answer of the connection.
example :
    let script : Script := { stored := [("teams", [[.int 2]])] }
    let run := lastingTeams.delete script (.mk "Company" [("Id", .int 1)] [] [])
    failure? run.1 = some (.notPermitted "Team" .delete) ∧
      run.2.calls = [.timeout 30000, .begin,
        .query
          { sql := "SELECT t0.\"id\" AS \"__key\" FROM \"teams\" AS t0 " ++
              "WHERE (t0.\"company_id\" = ?)"
            parameters := [.int 1] },
        .rollback] := by
  decide +kernel

end Repository

end EntityMap
