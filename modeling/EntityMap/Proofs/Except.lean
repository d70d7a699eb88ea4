import EntityMap.Catalog.Table
import Mathlib.Data.List.Forall2

/-!
# Answers that are not errors

When a computation that may fail does not: each of its parts has an
answer, each element of a list its own, and an error that is only renamed
was none.
-/

namespace EntityMap

variable {ε ε' α β : Type}

theorem Except.bind_eq_ok_iff {x : Except ε α} {f : α → Except ε β} {b : β} :
    x >>= f = .ok b ↔ ∃ a, x = .ok a ∧ f a = .ok b := by
  cases x with
  | error e => simp [bind, Except.bind]
  | ok a => simp [bind, Except.bind]

theorem Except.exists_bind_eq_ok {x : Except ε α} {f : α → Except ε β} {a : α} (ha : x = .ok a)
    (h : ∃ b, f a = .ok b) : ∃ b, x >>= f = .ok b := by
  rw [ha]
  exact h

theorem Except.bind_eq_error_iff {x : Except ε α} {f : α → Except ε β} {e : ε} :
    x >>= f = .error e ↔ x = .error e ∨ ∃ a, x = .ok a ∧ f a = .error e := by
  cases x with
  | error e => simp [bind, Except.bind]
  | ok a => simp [bind, Except.bind]

theorem Except.mapError_eq_error_iff {x : Except ε α} {g : ε → ε'} {e : ε'} :
    x.mapError g = .error e ↔ ∃ cause, x = .error cause ∧ g cause = e := by
  cases x <;> simp [Except.mapError]

/-- A fold that fails does so at one of the elements. -/
theorem Except.exists_of_foldlM_eq_error {f : β → α → Except ε β} {l : List α} {b : β} {e : ε}
    (h : l.foldlM f b = .error e) : ∃ a ∈ l, ∃ b, f b a = .error e := by
  induction l generalizing b with
  | nil => cases h
  | cons a rest ih =>
      rw [List.foldlM_cons] at h
      rcases Except.bind_eq_error_iff.mp h with h | ⟨b', -, h⟩
      · exact ⟨a, List.mem_cons_self .., b, h⟩
      · obtain ⟨a', ha', hb'⟩ := ih h
        exact ⟨a', List.mem_cons_of_mem _ ha', hb'⟩

theorem Except.mapError_eq_ok_iff {x : Except ε α} {g : ε → ε'} {a : α} :
    x.mapError g = .ok a ↔ x = .ok a := by
  cases x <;> simp [Except.mapError]

theorem Except.map_eq_ok_iff {x : Except ε α} {f : α → β} {b : β} :
    x.map f = .ok b ↔ ∃ a, x = .ok a ∧ f a = b := by
  cases x <;> simp [Except.map]

variable {γ : Type}

theorem Except.map_bind (x : Except ε α) (f : α → β) (g : β → Except ε γ) :
    (x.map f >>= g) = x >>= fun a => g (f a) := by
  cases x <;> rfl

theorem Except.mapError_map (x : Except ε α) (f : α → β) (g : ε → ε') :
    (x.map f).mapError g = (x.mapError g).map f := by
  cases x <;> rfl

theorem Except.toOption_eq_some_iff {x : Except ε α} {a : α} : x.toOption = some a ↔ x = .ok a := by
  cases x <;> simp [Except.toOption]

theorem Except.forM_eq_ok_iff {f : α → Except ε Unit} {l : List α} :
    l.forM f = .ok () ↔ ∀ a ∈ l, f a = .ok () := by
  induction l with
  | nil => simp [List.forM, pure, Except.pure]
  | cons a rest ih =>
      have hcons : (a :: rest).forM f = f a >>= fun _ => rest.forM f := rfl
      rw [hcons, Except.bind_eq_ok_iff, List.forall_mem_cons, ih]
      exact ⟨fun ⟨_, ha, hrest⟩ => ⟨ha, hrest⟩, fun ⟨ha, hrest⟩ => ⟨(), ha, hrest⟩⟩

theorem exists_of_forall₂_left {R : α → β → Prop} {l : List α} {bs : List β}
    (h : List.Forall₂ R l bs)
    {a : α} (ha : a ∈ l) : ∃ b ∈ bs, R a b := by
  induction h with
  | nil => cases ha
  | cons hab _ ih =>
      rcases List.mem_cons.mp ha with rfl | ha
      · exact ⟨_, List.mem_cons_self .., hab⟩
      · obtain ⟨b, hb, hrel⟩ := ih ha
        exact ⟨b, List.mem_cons_of_mem _ hb, hrel⟩

theorem exists_of_forall₂_right {R : α → β → Prop} {l : List α} {bs : List β}
    (h : List.Forall₂ R l bs)
    {b : β} (hb : b ∈ bs) : ∃ a ∈ l, R a b :=
  exists_of_forall₂_left (R := flip R) h.flip hb

theorem Except.mapM_eq_ok_iff {f : α → Except ε β} {l : List α} {bs : List β} :
    l.mapM f = .ok bs ↔ List.Forall₂ (fun a b => f a = .ok b) l bs := by
  induction l generalizing bs with
  | nil => simp [pure, Except.pure, eq_comm]
  | cons a rest ih =>
      rw [List.mapM_cons, Except.bind_eq_ok_iff, List.forall₂_cons_left_iff]
      constructor
      · rintro ⟨b, hb, h⟩
        obtain ⟨bs', hbs, h⟩ := Except.bind_eq_ok_iff.mp h
        cases h
        exact ⟨b, bs', hb, ih.mp hbs, rfl⟩
      · rintro ⟨b, bs', hb, hbs, rfl⟩
        exact ⟨b, hb, Except.bind_eq_ok_iff.mpr ⟨bs', ih.mpr hbs, rfl⟩⟩

theorem Except.exists_mapM_eq_ok {f : α → Except ε β} {l : List α} (h : ∀ a ∈ l, ∃ b, f a = .ok b) :
    ∃ bs, l.mapM f = .ok bs := by
  induction l with
  | nil => exact ⟨[], rfl⟩
  | cons a rest ih =>
      obtain ⟨b, hb⟩ := h a (List.mem_cons_self ..)
      obtain ⟨bs, hbs⟩ := ih fun a ha => h a (List.mem_cons_of_mem _ ha)
      exact ⟨b :: bs, Except.mapM_eq_ok_iff.mpr (.cons hb (Except.mapM_eq_ok_iff.mp hbs))⟩

/-- What follows a computation with a state runs on its answer, in the state that it leaves. -/
theorem ExceptT.run_bind_state {σ : Type} (m : ExceptT ε (StateM σ) α)
    (f : α → ExceptT ε (StateM σ) β) (s : σ) : (m >>= f).run s = match m.run s with
      | (.ok a, s') => (f a).run s'
      | (.error e, s') => (.error e, s') := by
  show (match m s with | (a, s') => (ExceptT.bindCont f a) s') = _
  rcases h : m s with ⟨e | a, s'⟩
  · simp [ExceptT.run, h, ExceptT.bindCont]
    rfl
  · simp [ExceptT.run, h, ExceptT.bindCont]

namespace Table

theorem column_eq_ok_iff {t : Table} {member : String} {c : Column} :
    t.column member = .ok c ↔ t.column? member = some c := by
  unfold column
  cases t.column? member <;> simp

theorem mem_of_column {t : Table} {member : String} {c : Column}
    (h : t.column member = .ok c) : c ∈ t.columns ∧ c.member = member := by
  have hfind := column_eq_ok_iff.mp h
  rw [column?] at hfind
  exact ⟨List.mem_of_find?_eq_some hfind, by simpa using List.find?_some hfind⟩

/-- The relationship of a name is one of the table, and has that name. -/
theorem mem_of_relationship? {t : Table} {name : String} {r : Relationship}
    (h : t.relationship? name = some r) : r ∈ t.relationships ∧ r.name = name := by
  rw [relationship?] at h
  exact ⟨List.mem_of_find?_eq_some h, by simpa using List.find?_some h⟩

end Table

end EntityMap
