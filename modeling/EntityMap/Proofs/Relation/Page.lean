import EntityMap.Proofs.Distinct
import EntityMap.Proofs.Relation.Condition
import EntityMap.Proofs.Relation.UniqueKeys

/-!
# Pages

Of the readings that pass the filter of a plan a database answers a page:
it collapses them to the distinct ones, if it has to, puts them in order
and cuts them (`Plan.Answers`). It is free to choose among readings that
show the same, and to order those as it likes that the order terms leave
open. So there may be several answers, but there is one
(`Plan.exists_answers`), and all are equally long (`Plan.Answers.length_eq`).
-/

namespace EntityMap

def Reading.get (a : Reading) (column : NodeColumn) : Value :=
  a.value column.node column.column

/-! ## The order of readings -/

/-- Whether a reading may come before another one, as far as an order term says. -/
def OrderTerm.le (c : Collation) (term : OrderTerm) (a b : Reading) : Bool :=
  match term.direction with
  | .asc => c.le (a.get term.column) (b.get term.column)
  | .desc => c.le (b.get term.column) (a.get term.column)

/-- Whether a reading may come before another one: the first term in which they differ says so. -/
def Reading.le (c : Collation) : List OrderTerm → Reading → Reading → Bool
  | [], _, _ => true
  | term :: rest, a, b => term.le c a b && (!term.le c b a || Reading.le c rest a b)

section Order

variable {c : Collation} {term : OrderTerm} {terms : List OrderTerm}

theorem OrderTerm.le_trans {a₁ a₂ a₃ : Reading} (h : term.le c a₁ a₂) (h' : term.le c a₂ a₃) :
    term.le c a₁ a₃ := by
  obtain ⟨column, direction⟩ := term
  cases direction with
  | asc => exact c.le_trans _ _ _ h h'
  | desc => exact c.le_trans _ _ _ h' h

theorem OrderTerm.le_total (c : Collation) (term : OrderTerm) (a b : Reading) :
    term.le c a b ∨ term.le c b a := by
  rw [← Bool.or_eq_true]
  obtain ⟨column, direction⟩ := term
  cases direction with
  | asc => exact c.le_total _ _
  | desc => exact c.le_total _ _

theorem Reading.le_trans {a₁ a₂ a₃ : Reading} (h : Reading.le c terms a₁ a₂)
    (h' : Reading.le c terms a₂ a₃) : Reading.le c terms a₁ a₃ := by
  induction terms with
  | nil => rfl
  | cons term rest ih =>
      simp only [Reading.le, Bool.and_eq_true, Bool.or_eq_true, Bool.not_eq_true'] at h h' ⊢
      obtain ⟨hle, hrest⟩ := h
      obtain ⟨hle', hrest'⟩ := h'
      refine ⟨OrderTerm.le_trans hle hle', ?_⟩
      rw [← Bool.not_eq_true] at hrest hrest' ⊢
      by_cases hback : term.le c a₃ a₁
      · -- all three tie in this term
        have h21 := OrderTerm.le_trans hle' hback
        have h32 := OrderTerm.le_trans hback hle
        exact .inr (ih (hrest.resolve_left fun h => h h21) (hrest'.resolve_left fun h => h h32))
      · exact .inl hback

theorem Reading.le_total (c : Collation) (terms : List OrderTerm) (a b : Reading) :
    Reading.le c terms a b ∨ Reading.le c terms b a := by
  induction terms with
  | nil => exact .inl rfl
  | cons term rest ih =>
      simp only [Reading.le, Bool.and_eq_true, Bool.or_eq_true, Bool.not_eq_true']
      have htotal := OrderTerm.le_total c term a b
      by_cases hab : term.le c a b
      · by_cases hba : term.le c b a
        · exact ih.imp (fun h => ⟨hab, .inr h⟩) (fun h => ⟨hba, .inr h⟩)
        · exact .inl ⟨hab, .inl (by simpa using hba)⟩
      · exact .inr ⟨htotal.resolve_left hab, .inl (by simpa using hab)⟩

end Order

/-! ## Distinct rows -/

namespace Plan

/-- Whether two readings show the same in all selected columns. -/
def showsSame (c : Collation) (p : Plan) (a b : Reading) : Bool :=
  p.select.all fun column => c.same (a.get column) (b.get column)

/-- What is left of the readings that pass: all, or if rows have to be distinct, one of each
that show the same. -/
structure Collapsed (c : Collation) (p : Plan) (passing kept : List Reading) : Prop where
  subperm : kept.Subperm passing
  all : p.modifiers.distinct = false → kept.Perm passing
  apart : p.modifiers.distinct → kept.Pairwise fun a b => ¬ p.showsSame c a b
  covers : p.modifiers.distinct → ∀ a ∈ passing, ∃ b ∈ kept, p.showsSame c a b

variable {c : Collation} {p : Plan} {a b : Reading} {passing kept kept' : List Reading}

theorem showsSame_refl (a : Reading) : p.showsSame c a a :=
  List.all_eq_true.mpr fun _ _ => Collation.same_refl _

theorem showsSame_symm (h : p.showsSame c a b) : p.showsSame c b a :=
  List.all_eq_true.mpr fun column hcolumn =>
    Collation.same_symm (List.all_eq_true.mp h column hcolumn)

theorem showsSame_trans {a₁ a₂ a₃ : Reading} (h : p.showsSame c a₁ a₂) (h' : p.showsSame c a₂ a₃) :
    p.showsSame c a₁ a₃ :=
  List.all_eq_true.mpr fun column hcolumn =>
    Collation.same_trans (List.all_eq_true.mp h column hcolumn)
      (List.all_eq_true.mp h' column hcolumn)

namespace Collapsed

theorem perm (h : p.Collapsed c passing kept) (hperm : kept'.Perm kept) :
    p.Collapsed c passing kept' := by
  have hsymm : ∀ {a b : Reading}, ¬ p.showsSame c a b → ¬ p.showsSame c b a :=
    fun hnot hsame => hnot (showsSame_symm hsame)
  refine ⟨hperm.subperm.trans h.subperm, fun hall => hperm.trans (h.all hall), ?_, ?_⟩
  · exact fun hdistinct => (h.apart hdistinct).perm hperm.symm hsymm
  · intro hdistinct a ha
    obtain ⟨b, hb, hab⟩ := h.covers hdistinct a ha
    exact ⟨b, hperm.mem_iff.mpr hb, hab⟩

theorem length_le (h : p.Collapsed c passing kept) (h' : p.Collapsed c passing kept') :
    kept.length ≤ kept'.length := by
  cases hdistinct : p.modifiers.distinct with
  | false => exact Nat.le_of_eq ((h.all hdistinct).trans (h'.all hdistinct).symm).length_eq
  | true =>
      refine length_le_of_covered (R := fun a b => p.showsSame c a b) showsSame_symm
        showsSame_trans (h.apart hdistinct) ?_
      exact fun a ha => h'.covers hdistinct a (h.subperm.subset ha)

end Collapsed

theorem exists_collapsed (c : Collation) (p : Plan) (passing : List Reading) :
    ∃ kept, p.Collapsed c passing kept := by
  cases hdistinct : p.modifiers.distinct with
  | false =>
      refine ⟨passing, List.Subperm.refl _, fun _ => List.Perm.refl _, ?_, ?_⟩ <;> simp [hdistinct]
  | true =>
      refine ⟨passing.pwFilter fun a b => ¬ p.showsSame c a b, ?_, ?_, ?_, ?_⟩
      · exact (List.pwFilter_sublist _).subperm
      · simp [hdistinct]
      · exact fun _ => List.pairwise_pwFilter _
      · intro _ a ha
        by_contra hnone
        have hall := (List.forall_mem_pwFilter (R := fun a b => ¬ p.showsSame c a b)
          (fun {x y z} hxz => ?_) a passing).mp fun b hb hsame => hnone ⟨b, hb, hsame⟩
        · exact hall a ha (showsSame_refl a)
        · by_contra hboth
          rw [not_or, not_not, not_not] at hboth
          exact hxz (showsSame_trans hboth.1 hboth.2)

end Plan

/-! ## Answers -/

/-- The rows of a page: some are skipped, and there is a limit to the others. -/
def Modifiers.cut {α : Type} (m : Modifiers) (rows : List α) : List α :=
  match m.limit with
  | some n => (rows.drop (m.skip.getD 0)).take n
  | none => rows.drop (m.skip.getD 0)

namespace Plan

/-- What a database may answer to a plan: the readings that pass the filter, collapsed, in an
order that the order terms allow, and cut. -/
inductive Answers (c : Collation) (store : Store) (p : Plan) : List Reading → Prop
  | intro {kept : List Reading} (hkept : p.Collapsed c (p.passing c.toComparison store) kept)
      (hsorted : kept.Pairwise fun a b => Reading.le c p.orderBy a b) :
      Answers c store p (p.modifiers.cut kept)

/-- The same plan without an offset and without a limit. -/
def unlimited (p : Plan) : Plan :=
  { p with modifiers := { distinct := p.modifiers.distinct } }

variable {c : Collation} {store : Store} {p : Plan} {page whole : List Reading}

theorem exists_answers (c : Collation) (store : Store) (p : Plan) :
    ∃ page, p.Answers c store page := by
  obtain ⟨kept, hkept⟩ := exists_collapsed c p (p.passing c.toComparison store)
  have htrans : ∀ a₁ a₂ a₃ : Reading, Reading.le c p.orderBy a₁ a₂ → Reading.le c p.orderBy a₂ a₃ →
      Reading.le c p.orderBy a₁ a₃ := fun _ _ _ => Reading.le_trans
  have htotal : ∀ a b : Reading, Reading.le c p.orderBy a b || Reading.le c p.orderBy b a := by
    simpa using Reading.le_total c p.orderBy
  have hsorted := List.pairwise_mergeSort htrans htotal kept
  exact ⟨_, .intro (hkept.perm (List.mergeSort_perm _ _)) hsorted⟩

theorem Answers.of_unlimited (h : p.unlimited.Answers c store whole) :
    p.Collapsed c (p.passing c.toComparison store) whole := by
  cases h with
  | intro hkept => exact ⟨hkept.subperm, hkept.all, hkept.apart, hkept.covers⟩

/-- How long a page is: as long as its limit, unless there are too few rows behind its offset. -/
theorem Answers.length_eq {k : Nat} (hlimit : p.modifiers.limit = some k)
    (hpage : p.Answers c store page) (hwhole : p.unlimited.Answers c store whole) :
    page.length = min k (whole.length - p.modifiers.skip.getD 0) := by
  have hwhole := hwhole.of_unlimited
  cases hpage with
  | @intro kept hkept =>
      have hlength : kept.length = whole.length :=
        Nat.le_antisymm (hkept.length_le hwhole) (hwhole.length_le hkept)
      rw [Modifiers.cut, hlimit, List.length_take, List.length_drop, hlength]

theorem Answers.sublist_collapsed (h : p.Answers c store page) :
    ∃ kept, p.Collapsed c (p.passing c.toComparison store) kept ∧ page.Sublist kept := by
  cases h with
  | @intro kept hkept =>
      refine ⟨kept, hkept, ?_⟩
      unfold Modifiers.cut
      split
      · exact (List.take_sublist _ _).trans (List.drop_sublist _ _)
      · exact List.drop_sublist _ _

end Plan

end EntityMap
