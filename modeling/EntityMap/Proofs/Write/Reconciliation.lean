import EntityMap.Execution.Script
import EntityMap.Proofs.Write.Tree

/-!
# Reconciliation

The run of a save that succeeds, taken apart, where collections are saved
one after the other: the records that the record refers to are saved,
then its own row is written, and then its collections are saved
(`CollectionsSaved`): all items in their order, and then, unless the row
is new, one key query whose answer is released but for the keys of the
items (`Reconciled`). Every save inside such a run is one that succeeds,
so that `Cascade.saveRecord_reconciles` says the same of it.
-/

namespace EntityMap

variable {σ : Type} [Executor σ] {α β : Type} {rules : CascadeRules}

namespace Cascade

open UnitOfWork

/-- The items of a collection are saved one after the other, which answers their keys. -/
inductive ItemsSaved (rules : CascadeRules) (t : Table) (name : String) (o : Ownership)
    (parentKey : Value) : Cascade σ → List Record → List Value → List Event → Cascade σ → Prop
  | nil {c : Cascade σ} : ItemsSaved rules t name o parentKey c [] [] [] c
  | cons {c c₁ c₂ : Cascade σ} {item item' : Record} {rest : List Record} {placement : Placement}
      {key : Value} {kept : List Value} {es es' : List Event}
      (hadopt : adopt t name .collectionItem o.child.entity item = .ok placement)
      (hrun : (saveRecord rules { placement with foreignKey := some (o.foreignKey, parentKey) }
        item).run c = ((.ok key, item'), c₁))
      (hsends : Sends rules c.work es c₁.work)
      (hrest : ItemsSaved rules t name o parentKey c₁ rest kept es' c₂) :
      ItemsSaved rules t name o parentKey c (item :: rest) (key :: kept) (es ++ es') c₂

/-- One key query for the children of a row, and behind it the release of each orphan, once and
in the order of the answer. -/
inductive Reconciled (rules : CascadeRules) (o : Ownership) (parentKey : Value)
    (kept : List Value) : List Event → Prop
  | intro {s : Statement} {records : RecordSet} {keys : List Value} {es : List Event}
      (hquery : rules.keyQuery o.child.entity (o.childrenOf parentKey) = .ok s)
      (hkeys : FirstSeen (records.cells keyLabel) keys) (hdistinct : keys.Nodup)
      (hnull : .null ∉ keys)
      (hreleased : Each (Released o (Deleted rules rules.depth))
        (keys.filter fun key => !kept.contains key) (.ok ()) es) :
      Reconciled rules o parentKey kept (.swept o parentKey kept s (.ok records) :: es)

/-- The collections of a row are saved one after the other. -/
inductive CollectionsSaved (rules : CascadeRules) (t : Table) (values : Named Value)
    (isNew : Bool) : Cascade σ → List (String × List Record) → List Event → Cascade σ → Prop
  | nil {c : Cascade σ} : CollectionsSaved rules t values isNew c [] [] c
  | cons {c c₁ c₂ c₃ : Cascade σ} {name : String} {items : List Record}
      {rest : List (String × List Record)} {o : Ownership} {parentKey : Value} {kept : List Value}
      {es es' es'' : List Event} (ho : collectionOf rules t name = .ok o)
      (hparent : parentKey = Record.valueOf values o.parentMember)
      (hitems : ItemsSaved rules t name o parentKey c items kept es c₁)
      (hnew : isNew = true → es' = [] ∧ c₂ = c₁)
      (hchanged : isNew = false →
        Sends rules c₁.work es' c₂.work ∧ Reconciled rules o parentKey kept es')
      (hrest : CollectionsSaved rules t values isNew c₂ rest es'' c₃) :
      CollectionsSaved rules t values isNew c ((name, items) :: rest) (es ++ (es' ++ es'')) c₃

theorem ItemsSaved.sends {t : Table} {name : String} {o : Ownership} {parentKey : Value}
    {items : List Record} {kept : List Value} {es : List Event} {c c' : Cascade σ}
    (h : ItemsSaved rules t name o parentKey c items kept es c') :
    Sends rules c.work es c'.work := by
  induction h with
  | nil => exact .done _
  | cons _ _ hsends _ ih => exact hsends.trans ih

/-- The events of collections lead from the one unit of work to the other. -/
theorem CollectionsSaved.sends {t : Table} {values : Named Value} {isNew : Bool}
    {collections : List (String × List Record)} {es : List Event} {c c' : Cascade σ}
    (h : CollectionsSaved rules t values isNew c collections es c') :
    Sends rules c.work es c'.work := by
  induction h with
  | nil => exact .done _
  | cons _ _ hitems hnew hchanged _ ih =>
      refine hitems.sends.trans (Sends.trans ?_ ih)
      cases isNew with
      | true =>
          obtain ⟨rfl, rfl⟩ := hnew rfl
          exact .done _
      | false => exact (hchanged rfl).1

/-- Where one collection is saved at a time, the first is saved before the rest. -/
theorem saveCollections_cons_eq (hturn : rules.maxParallelCollections ≤ 1) (t : Table)
    (values : Named Value) (isNew : Bool) (name : String) (items : List Record)
    (rest : List (String × List Record)) :
    (saveCollections rules t values isNew ((name, items) :: rest) : Saving σ _) =
      match collectionOf rules t name with
      | .error e => return (.error e, (name, items) :: rest)
      | .ok o => do
        match ← saveItems rules t name o (Record.valueOf values o.parentMember) items with
        | (.error e, items) => return (.error e, (name, items) :: rest)
        | (.ok kept, items) =>
          match ← reconcile rules o (Record.valueOf values o.parentMember) isNew kept with
          | .error e => return (.error e, (name, items) :: rest)
          | .ok () =>
            let (saved, rest) ← saveCollections rules t values isNew rest
            return (saved, (name, items) :: rest) := by
  have hinTurn : ∀ collections, (saveCollections rules t values isNew collections : Saving σ _) =
      Saving.inTurn (collectionSaves rules t values isNew collections) := by
    exact fun collections => Saving.together_of_few fun hmany => by omega
  have hleft : (collectionSaves rules t values isNew rest : List (Strand σ _)).map Strand.left =
      rest := by
    induction rest with
    | nil => rw [collectionSaves, List.map_nil]
    | cons collection rest ih => rw [collectionSaves, List.map_cons, ih]; rfl
  rw [hinTurn, hinTurn, collectionSaves, Saving.inTurn, hleft, saveCollection_eq]
  cases collectionOf rules t name with
  | error e => rfl
  | ok o =>
      dsimp only
      rw [bind_assoc]
      refine bind_congr ?_
      rintro ⟨_ | kept, items⟩
      · rfl
      · dsimp only
        rw [bind_assoc]
        refine bind_congr ?_
        rintro (_ | ⟨⟩) <;> rfl

def companyKey : Column :=
  { member := "Id", column := "id", type := .int64, primaryKey := true, default := .generated }

/-- Companies with teams, and teams with members. -/
def companyTables : List Table :=
  [{ entity := "Company", table := "companies"
     columns := [companyKey, { member := "Name", column := "name", type := .text }]
     relationships := [
       { name := "Teams", kind := .oneToMany, foreignKey := ⟨"Team", "CompanyId"⟩
         primaryKey := ⟨"Company", "Id"⟩ }]
     permissions := {} },
   { entity := "Team", table := "teams"
     columns := [companyKey, { member := "CompanyId", column := "company_id", type := .int64 }]
     relationships := [
       { name := "Members", kind := .oneToMany, foreignKey := ⟨"Member", "TeamId"⟩
         primaryKey := ⟨"Team", "Id"⟩ }]
     permissions := {} },
   { entity := "Member", table := "members"
     columns := [companyKey, { member := "TeamId", column := "team_id", type := .int64 }]
     relationships := []
     permissions := {} }]

def companyRules : CascadeRules :=
  { catalog := ⟨companyTables, []⟩, identityInsert := false, depth := 10 }

/-- A company whose first team has no members, and whose second team has one. -/
def company : Record :=
  let member : Record := .mk "Member" [("Id", .int 7)] [] []
  let teams : List Record := [
    .mk "Team" [("Id", .int 2)] [] [("Members", [])],
    .mk "Team" [("Id", .int 3)] [] [("Members", [member])]]
  .mk "Company" [("Id", .int 1), ("Name", .text "North")] [] [("Teams", teams)]

/-- A connection that finds the member in the first team, and then in the second. -/
def companyStart : Cascade Script :=
  { work := { connection :=
      { stored := [("members", [[.int 7], [.int 7]]), ("teams", [[.int 2, .int 3]])] } } }

end Cascade

end EntityMap
