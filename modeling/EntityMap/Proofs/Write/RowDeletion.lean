import EntityMap.Execution.Script
import EntityMap.Proofs.Write.Release
import EntityMap.Proofs.Write.Rules

/-!
# The deletion of a row

A deletion releases the rows that point to its row, relationship by
relationship, and then deletes the row by its last statement. When it
does not come to that, a check refuses it, or the last statement is the
one that failed (`Cascade.deleteRow_cascades`).

In an open unit of work nothing else can end it: what is sent leaves the
unit of work open (`Writing.Proceeds`).
-/

namespace EntityMap

namespace Writing

variable {σ α β : Type}

/-- From every cascade whose unit of work is open, a computation leaves it open, and does not
answer that it is closed. -/
def Proceeds (m : Writing σ α) : Prop :=
  ∀ c : Cascade σ, c.work.isOpen = true →
    (m.run c).2.work.isOpen = true ∧ (m.run c).1 ≠ .error (.unitOfWork .closed)

namespace Proceeds

theorem pure {a : α} : Proceeds (pure a : Writing σ α) :=
  fun _ hc => ⟨hc, nofun⟩

theorem ofExcept {answer : Except WriteError α} (h : Checked answer) :
    Proceeds (Writing.ofExcept answer : Writing σ α) :=
  fun _ hc => ⟨hc, fun heq => h _ heq rfl⟩

theorem throw {e : WriteError} (h : e.category ≠ .execution) :
    Proceeds (throw e : Writing σ α) :=
  fun _ hc => ⟨hc, fun heq => h (Except.error.inj heq ▸ rfl)⟩

theorem throw_bind {e : WriteError} {f : α → Writing σ β} (h : e.category ≠ .execution) :
    Proceeds (MonadExcept.throw e >>= f : Writing σ β) :=
  fun _ hc => ⟨hc, fun heq => h (Except.error.inj heq ▸ rfl)⟩

theorem bind {m : Writing σ α} {f : α → Writing σ β} (hm : Proceeds m)
    (hf : ∀ a, Proceeds (f a)) : Proceeds (m >>= f) := by
  intro c hc
  obtain ⟨hopen, hanswer⟩ := hm c hc
  rw [run_bind]
  rcases hrun : m.run c with ⟨e | a, c'⟩
  · rw [hrun] at hopen hanswer
    exact ⟨hopen, fun heq => hanswer (congrArg _ (Except.error.inj heq))⟩
  · rw [hrun] at hopen
    exact hf a c' hopen

theorem forM {f : α → Writing σ Unit} (hf : ∀ a, Proceeds (f a)) (l : List α) :
    Proceeds (l.forM f) := by
  induction l with
  | nil => exact pure
  | cons a rest ih => exact (hf a).bind fun _ => ih

theorem send {s : Statement} {call : Call} {answer : σ → Except ExecutionError α × σ} :
    Proceeds (inWork (UnitOfWork.send s call answer)) := by
  intro c hc
  rw [run_inWork, UnitOfWork.run_send, if_pos hc]
  refine ⟨hc, ?_⟩
  cases (answer c.work.connection).1 with
  | ok a => exact nofun
  | error source => exact nofun

end Proceeds

end Writing

namespace Cascade

open Writing

variable {σ : Type} [Executor σ] {rules : CascadeRules}

theorem selectKeys_proceeds (entity : String) (filter : Filter) :
    Proceeds (selectKeys rules entity filter : Writing σ (List Value)) :=
  (Proceeds.ofExcept (CascadeRules.keyQuery_checked entity filter)).bind fun _ =>
    Proceeds.send.bind fun _ => .pure

theorem executeKeyed_proceeds (t : Table) (op : Operation) (key : Value) :
    Proceeds (executeKeyed t op key : Writing σ Unit) := by
  unfold executeKeyed
  refine (Proceeds.ofExcept (.mapError nofun)).bind fun s => Proceeds.send.bind fun n => ?_
  split
  · exact .throw nofun
  · exact .pure

theorem deleteBy_proceeds {delete : String → Value → Writing σ Unit}
    (hdelete : ∀ entity key, Proceeds (delete entity key)) (entity : String) (key : Value) :
    Proceeds (deleteBy rules delete entity key) := by
  have hrelease : ∀ o child, Proceeds (release o delete child) := by
    intro o child
    unfold release
    split
    · exact hdelete _ _
    · exact (Proceeds.ofExcept (o.child.permit_checked .detach)).bind fun _ =>
        executeKeyed_proceeds _ _ _
  unfold deleteBy
  refine (Proceeds.ofExcept (CascadeRules.keyedTable_checked entity)).bind fun keyed => ?_
  obtain ⟨t, keyColumn⟩ := keyed
  refine (Proceeds.ofExcept (t.permit_checked .delete)).bind fun _ => ?_
  dsimp only
  split
  · exact .throw_bind nofun
  · refine (Proceeds.forM (fun r => ?_) _).bind fun _ => executeKeyed_proceeds _ _ _
    exact (Proceeds.ofExcept (CascadeRules.ownership_checked r)).bind fun o =>
      (selectKeys_proceeds _ _).bind fun _ => .forM (hrelease o) _

theorem deleteRow_proceeds (depth : Nat) (entity : String) (key : Value) :
    Proceeds (deleteRow rules depth entity key : Writing σ Unit) := by
  induction depth generalizing entity key with
  | zero => exact fun _ hc => ⟨hc, nofun⟩
  | succ depth ih =>
      rw [deleteRow_succ]
      exact deleteBy_proceeds ih entity key

/-- Whatever the connection answers: a deletion that succeeds has released the rows that point to
its row, and then deleted the row by its last statement; one that fails is refused by a check, or
by the statement that is its last, and has not come further. -/
theorem deleteRow_cascades (rules : CascadeRules) (depth : Nat) (entity : String) (key : Value)
    (c : Cascade σ) :
    ∃ es, UnitOfWork.Sends rules c.work es ((deleteRow rules depth entity key).run c).2.work ∧
      ((deleteRow rules depth entity key).run c).2.work.calls =
        c.work.calls ++ es.map Event.call ∧
      Deleted rules depth entity key ((deleteRow rules depth entity key).run c).1 es ∧
      Ends ((deleteRow rules depth entity key).run c).1 es ∧
      (c.work.isOpen = true →
        ((deleteRow rules depth entity key).run c).1 ≠ .error (.unitOfWork .closed)) := by
  obtain ⟨es, hsends, hdeleted, hends⟩ := (@deleteRow_halts σ _ rules depth entity key).run c
  exact ⟨es, hsends, hsends.calls_eq, hdeleted, hends,
    fun hopen => (deleteRow_proceeds depth entity key c hopen).2⟩

/-! ## A folder with notes -/

def folderKey : Column :=
  { member := "Id", column := "id", type := .int64, primaryKey := true, default := .generated }

/-- Folders, which may lie in other folders, and notes, which have to lie in one. -/
def folderTables : List Table :=
  [{ entity := "Folder", table := "folders"
     columns := [folderKey,
       { member := "ParentId", column := "parent_id", type := .int64, nullable := true }]
     relationships := [
       { name := "Folders", kind := .oneToMany, foreignKey := ⟨"Folder", "ParentId"⟩
         primaryKey := ⟨"Folder", "Id"⟩ },
       { name := "Notes", kind := .oneToMany, foreignKey := ⟨"Note", "FolderId"⟩
         primaryKey := ⟨"Folder", "Id"⟩ }]
     permissions := {} },
   { entity := "Note", table := "notes"
     columns := [folderKey, { member := "FolderId", column := "folder_id", type := .int64 }]
     relationships := []
     permissions := {} }]

def folderRules : CascadeRules :=
  { catalog := ⟨folderTables, []⟩, identityInsert := false, depth := 10 }

/-- A connection that finds the folders 1 and 2 in the folder 1, and the note 5 twice. -/
def folderStart : Cascade Script :=
  { work := { connection :=
      { stored := [("folders", [[.int 1, .int 2]]), ("notes", [[.int 5, .null, .int 5]])] } } }

/-- What the deletion of the folder 1 sends. The folder is not released from itself, the folder 2 is
detached, and the note is deleted once. -/
def folderCalls : List Call :=
  [.query ⟨"SELECT t0.\"id\" AS \"__key\" FROM \"folders\" AS t0 WHERE (t0.\"parent_id\" = ?)",
      [.int 1]⟩,
   .execute ⟨"UPDATE \"folders\" SET \"parent_id\" = ? WHERE \"id\" = ?", [.null, .int 2]⟩,
   .query ⟨"SELECT t0.\"id\" AS \"__key\" FROM \"notes\" AS t0 WHERE (t0.\"folder_id\" = ?)",
      [.int 1]⟩,
   .execute ⟨"DELETE FROM \"notes\" WHERE \"id\" = ?", [.int 5]⟩,
   .execute ⟨"DELETE FROM \"folders\" WHERE \"id\" = ?", [.int 1]⟩]

theorem deleteRow_folder : ∃ es,
    UnitOfWork.Sends folderRules folderStart.work es
      ((deleteRow folderRules 2 "Folder" (.int 1)).run folderStart).2.work ∧
    Deleted folderRules 2 "Folder" (.int 1) (.ok ()) es ∧ es.map Event.call = folderCalls := by
  have hrun : ((deleteRow folderRules 2 "Folder" (.int 1)).run folderStart).1.isOk = true ∧
      ((deleteRow folderRules 2 "Folder" (.int 1)).run folderStart).2.work.calls =
        folderCalls := by
    decide +kernel
  obtain ⟨es, hsends, hcalls, hdeleted, -⟩ :=
    deleteRow_cascades folderRules 2 "Folder" (.int 1) folderStart
  obtain ⟨hok, hrun⟩ := hrun
  refine ⟨es, hsends, ?_, hcalls.symm.trans hrun⟩
  rcases hresult : ((deleteRow folderRules 2 "Folder" (.int 1)).run folderStart).1 with e | ⟨⟩
  · rw [hresult] at hok
    cases hok
  · rwa [hresult] at hdeleted

end Cascade

end EntityMap
