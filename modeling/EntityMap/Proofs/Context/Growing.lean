import EntityMap.Proofs.Context.Children
import EntityMap.Proofs.Except

/-!
# Growing computations

A computation on a growing context only ever attaches nodes, whether it
succeeds or fails. `Growing.Leads` says so together with what the answer
satisfies in the context that is left; there is one rule for each way to
put computations together and one fact for each function of
`Context.Growth`. A path leads to the node at its end
(`Context.Reaches`).
-/

namespace EntityMap

namespace Growing

variable {ε ε' α β : Type}

theorem run_bind (m : Growing ε α) (f : α → Growing ε β) (ctx : Context) :
    (m >>= f).run ctx = match m.run ctx with
      | (.ok a, ctx') => (f a).run ctx'
      | (.error e, ctx') => (.error e, ctx') := by
  rw [ExceptT.run_bind_state]
  rcases m.run ctx with ⟨_ | _, _⟩ <;> rfl

theorem run_bind_eq_ok_iff {m : Growing ε α} {f : α → Growing ε β} {b : β} {ctx ctx'' : Context} :
    (m >>= f).run ctx = (.ok b, ctx'') ↔
      ∃ a ctx', m.run ctx = (.ok a, ctx') ∧ (f a).run ctx' = (.ok b, ctx'') := by
  rw [run_bind]
  rcases m.run ctx with ⟨e | a, ctx'⟩
  · exact ⟨fun h => (by cases h), fun ⟨_, _, h, _⟩ => (by cases h)⟩
  · refine ⟨fun h => ⟨a, ctx', rfl, h⟩, ?_⟩
    rintro ⟨a', ctx₁, h, h'⟩
    cases h
    exact h'

theorem eq_error_of_run_bind {m : Growing ε α} {f : α → Growing ε β} {e : ε} {ctx : Context}
    (h : ((m >>= f).run ctx).1 = .error e) : (m.run ctx).1 = .error e ∨
      ∃ a ctx', m.run ctx = (.ok a, ctx') ∧ ((f a).run ctx').1 = .error e := by
  rw [run_bind] at h
  rcases hrun : m.run ctx with ⟨fault | a, ctx'⟩
  · rw [hrun] at h
    cases h
    exact .inl rfl
  · rw [hrun] at h
    exact .inr ⟨a, ctx', rfl, h⟩

theorem run_get_bind (f : Context → Growing ε β) (ctx : Context) :
    (MonadState.get >>= f).run ctx = (f ctx).run ctx :=
  rfl

theorem run_look (f : Context → Except ε α) (ctx : Context) :
    (look f).run ctx = (f ctx, ctx) :=
  rfl

theorem run_look_bind (f : Context → Except ε α) (g : α → Growing ε β) (ctx : Context) :
    (look f >>= g).run ctx = match f ctx with
      | .ok a => (g a).run ctx
      | .error e => (.error e, ctx) := by
  rw [run_bind, run_look]
  cases f ctx <;> rfl

theorem run_adapt (g : ε → ε') (m : Growing ε α) (ctx : Context) :
    (ExceptT.adapt g m).run ctx = ((m.run ctx).1.mapError g, (m.run ctx).2) :=
  rfl

/-- From a context, a computation only attaches nodes, and its answer satisfies `Q`
in the context that it leaves. -/
structure Leads (m : Growing ε α) (ctx : Context) (Q : α → Context → Prop) : Prop where
  grows : ctx.Grows (m.run ctx).2
  answer : ∀ a, (m.run ctx).1 = .ok a → Q a (m.run ctx).2

/-- Nothing is claimed of the answer. -/
abbrev Only (m : Growing ε α) (ctx : Context) : Prop :=
  m.Leads ctx fun _ _ => True

namespace Leads

variable {ctx : Context} {m : Growing ε α} {Q : α → Context → Prop} {R : β → Context → Prop}

theorem pure {a : α} (h : Q a ctx) : Leads (pure a : Growing ε α) ctx Q :=
  ⟨Context.Grows.refl ctx, fun _ hb => by cases hb; exact h⟩

theorem throw (e : ε) : Leads (throw e : Growing ε α) ctx Q :=
  ⟨Context.Grows.refl ctx, fun _ hb => by cases hb⟩

theorem look {f : Context → Except ε α} (h : ∀ a, f ctx = .ok a → Q a ctx) :
    Leads (Growing.look f) ctx Q :=
  ⟨Context.Grows.refl ctx, h⟩

theorem bind {f : α → Growing ε β} (hm : m.Leads ctx Q)
    (hf : ∀ a ctx', ctx.Grows ctx' → Q a ctx' → (f a).Leads ctx' R) : (m >>= f).Leads ctx R := by
  obtain ⟨hgrows, hanswer⟩ := hm
  rcases hrun : m.run ctx with ⟨e | a, ctx'⟩
  · rw [hrun] at hgrows
    have hbind : (m >>= f).run ctx = (.error e, ctx') := by rw [run_bind, hrun]
    refine ⟨by rw [hbind]; exact hgrows, fun b hb => ?_⟩
    rw [hbind] at hb
    cases hb
  · rw [hrun] at hgrows hanswer
    obtain ⟨hgrows', hanswer'⟩ := hf a ctx' hgrows (hanswer a rfl)
    have hbind : (m >>= f).run ctx = (f a).run ctx' := by rw [run_bind, hrun]
    exact ⟨by rw [hbind]; exact hgrows.trans hgrows', by rw [hbind]; exact hanswer'⟩

/-- Looking at the context leaves it as it is. -/
theorem look_bind {f : Context → Except ε α} {g : α → Growing ε β}
    (h : ∀ a, f ctx = .ok a → (g a).Leads ctx R) : (Growing.look f >>= g).Leads ctx R := by
  have hrun := run_look_bind f g ctx
  cases hf : f ctx with
  | error e =>
      simp only [hf] at hrun
      refine ⟨by rw [hrun]; exact Context.Grows.refl ctx, fun b hb => ?_⟩
      rw [hrun] at hb
      cases hb
  | ok a =>
      simp only [hf] at hrun
      obtain ⟨hgrows, hanswer⟩ := h a hf
      exact ⟨by rw [hrun]; exact hgrows, by rw [hrun]; exact hanswer⟩

theorem get_bind {g : Context → Growing ε β} (h : (g ctx).Leads ctx R) :
    (MonadState.get >>= g).Leads ctx R :=
  ⟨h.grows, h.answer⟩

theorem mono {Q' : α → Context → Prop} (h : m.Leads ctx Q)
    (himp : ∀ a ctx', ctx.Grows ctx' → Q a ctx' → Q' a ctx') : m.Leads ctx Q' :=
  ⟨h.grows, fun a ha => himp a _ h.grows (h.answer a ha)⟩

theorem only (h : m.Leads ctx Q) : m.Only ctx :=
  h.mono fun _ _ _ _ => trivial

theorem adapt {g : ε → ε'} (h : m.Leads ctx Q) : Leads (ExceptT.adapt g m) ctx Q := by
  refine ⟨by rw [run_adapt]; exact h.grows, fun a ha => ?_⟩
  rw [run_adapt] at ha ⊢
  refine h.answer a ?_
  cases hm : (m.run ctx).1 with
  | error e => rw [hm] at ha; cases ha
  | ok b => rw [hm] at ha; cases ha; rfl

theorem map {f : α → β} (h : m.Leads ctx fun a ctx' => R (f a) ctx') : (f <$> m).Leads ctx R := by
  have hmap : f <$> m = m >>= fun a => Pure.pure (f a) := map_eq_pure_bind f m
  rw [hmap]
  exact h.bind fun a ctx' _ ha => Leads.pure ha

/-- An invariant of the accumulated answer and of the elements so far is kept over a list. -/
theorem foldlM_seen {S : List α → β → Context → Prop} {f : β → α → Growing ε β} {b : β}
    {l : List α} (seen : List α) (hb : S seen b ctx)
    (hstep : ∀ before b a ctx', a ∈ l → ctx.Grows ctx' → S before b ctx' →
      (f b a).Leads ctx' (S (before ++ [a]))) : (l.foldlM f b).Leads ctx (S (seen ++ l)) := by
  induction l generalizing b ctx seen with
  | nil => exact Leads.pure (by rwa [List.append_nil])
  | cons a rest ih =>
      rw [List.foldlM_cons]
      refine (hstep seen b a ctx (List.mem_cons_self ..) (Context.Grows.refl ctx) hb).bind ?_
      intro b' ctx' hgrows hb'
      rw [List.append_cons]
      exact ih _ hb' fun before b a ctx'' ha hgrows' =>
        hstep before b a ctx'' (List.mem_cons_of_mem _ ha) (hgrows.trans hgrows')

theorem foldlM {f : β → α → Growing ε β} {b : β} {l : List α} (hb : R b ctx)
    (hstep : ∀ b a ctx', a ∈ l → ctx.Grows ctx' → R b ctx' → (f b a).Leads ctx' R) :
    (l.foldlM f b).Leads ctx R :=
  foldlM_seen (S := fun _ => R) [] hb fun _ => hstep

theorem forM {f : α → Growing ε Unit} {l : List α}
    (hstep : ∀ a ctx', a ∈ l → ctx.Grows ctx' → (f a).Only ctx') : (l.forM f).Only ctx := by
  induction l generalizing ctx with
  | nil => exact Leads.pure trivial
  | cons a rest ih =>
      show (f a >>= fun _ => rest.forM f).Only ctx
      refine (hstep a ctx (List.mem_cons_self ..) (Context.Grows.refl ctx)).bind ?_
      intro _ ctx' hgrows _
      exact ih fun a ctx'' ha hgrows' =>
        hstep a ctx'' (List.mem_cons_of_mem _ ha) (hgrows.trans hgrows')

/-- Each answer over a list keeps what it satisfies, for the element that it is the answer for,
while the context grows on. -/
theorem mapM_forall₂ {S : α → β → Context → Prop} {f : α → Growing ε β} {l : List α}
    (hkeep : ∀ a b ctx' ctx'', ctx'.Grows ctx'' → S a b ctx' → S a b ctx'')
    (hstep : ∀ a ctx', a ∈ l → ctx.Grows ctx' → (f a).Leads ctx' (S a)) :
    (l.mapM f).Leads ctx fun bs ctx' => List.Forall₂ (fun a b => S a b ctx') l bs := by
  induction l generalizing ctx with
  | nil => exact Leads.pure .nil
  | cons a rest ih =>
      rw [List.mapM_cons]
      refine (hstep a ctx (List.mem_cons_self ..) (Context.Grows.refl ctx)).bind ?_
      intro b ctx' hgrows hb
      refine (ih fun a ctx'' ha hgrows' =>
        hstep a ctx'' (List.mem_cons_of_mem _ ha) (hgrows.trans hgrows')).bind ?_
      intro bs ctx'' hgrows' hbs
      exact Leads.pure (.cons (hkeep a b ctx' ctx'' hgrows' hb) hbs)

theorem mapM {f : α → Growing ε β} {l : List α}
    (hkeep : ∀ b ctx' ctx'', ctx'.Grows ctx'' → R b ctx' → R b ctx'')
    (hstep : ∀ a ctx', a ∈ l → ctx.Grows ctx' → (f a).Leads ctx' R) :
    (l.mapM f).Leads ctx fun bs ctx' => ∀ b ∈ bs, R b ctx' := by
  refine (mapM_forall₂ (S := fun _ => R) (fun _ => hkeep) hstep).mono fun bs ctx' _ hbs b hb => ?_
  obtain ⟨_, -, h⟩ := exists_of_forall₂_right hbs hb
  exact h

end Leads

end Growing

namespace Context

open Growing

variable {ctx : Context}

theorem child?_eq_none {i : Nat} {key : ChildKey} {n : Node} (hn : ctx.nodes[i]? = some n)
    (h : (ctx.child? i key).isNone) : n.child? key = none := by
  simpa [child?, hn] using h

theorem node_eq_ok_iff {i : Nat} {n : Node} : ctx.node i = .ok n ↔ ctx.nodes[i]? = some n := by
  unfold node
  cases ctx.nodes[i]? <;> simp

theorem entityTable_eq_ok_iff {entity : String} {t : Table} :
    ctx.entityTable entity = .ok t ↔ ctx.catalog.table entity = .ok t := by
  unfold entityTable
  cases ctx.catalog.table entity <;> simp [Except.mapError]

theorem table_eq_ok_iff {i : Nat} {t : Table} :
    ctx.table i = .ok t ↔
      ∃ n, ctx.nodes[i]? = some n ∧ ctx.catalog.table n.entity = .ok t := by
  unfold table node
  cases ctx.nodes[i]? with
  | none => simp [bind, Except.bind]
  | some n => simp [bind, Except.bind, entityTable_eq_ok_iff]

theorem addNode_leads {entity : String} {link : Link} {origin : Node}
    (horigin : ctx.nodes[link.origin]? = some origin)
    (hlink : Link.Declared ctx.catalog origin.entity entity link)
    (hfree : origin.child? link.key = none) :
    (addNode entity link).Leads ctx fun i ctx' => ctx'.child? link.origin link.key = some i := by
  unfold addNode
  refine Leads.look_bind fun t ht => Leads.get_bind ?_
  have hstep : ctx.Attaches (ctx.attach entity t.table link) :=
    .intro horigin (entityTable_eq_ok_iff.mp ht) hlink hfree
  refine ⟨hstep.grows, fun i hi => ?_⟩
  cases hi
  show (ctx.attach entity t.table link).child? link.origin link.key = some ctx.nodes.size
  have hnone : ctx.child? link.origin link.key = none := by
    rw [child?, horigin]
    exact hfree
  rw [child?_attach horigin, hnone, Option.none_or, if_pos ⟨rfl, rfl⟩]

/-- A lookup column of a node gets its child. -/
theorem addLookup_leads {i : Nat} {n : Node} {table : Table} {column : Column} {lookup : Lookup}
    (hn : ctx.nodes[i]? = some n) (htable : ctx.catalog.table n.entity = .ok table)
    (hcolumn : column ∈ table.columns) (hlookup : column.lookup = some lookup) :
    (addLookup i column lookup).Only ctx := by
  unfold addLookup
  refine Leads.get_bind ?_
  split
  · rename_i hnone
    refine Leads.look_bind fun key hkey => ?_
    obtain ⟨target, htarget, hkey⟩ := Except.bind_eq_ok_iff.mp hkey
    refine (addNode_leads hn ?_ (child?_eq_none hn hnone)).bind fun _ _ _ _ => Leads.pure trivial
    exact .lookup i htable hcolumn hlookup (entityTable_eq_ok_iff.mp htarget)
      (Except.mapError_eq_ok_iff.mp hkey)
  · exact Leads.pure trivial

theorem addLookups_leads (i : Nat) : (addLookups i).Only ctx := by
  unfold addLookups
  refine Leads.look_bind fun table htable => Leads.forM ?_
  rintro ⟨column, lookup⟩ ctx' hmem hgrows
  obtain ⟨n, hn, htable⟩ := table_eq_ok_iff.mp htable
  obtain ⟨n', hn', more, rfl⟩ := hgrows.node hn
  obtain ⟨c, hc, hcl⟩ := List.mem_filterMap.mp hmem
  obtain ⟨l, hl, hpair⟩ := Option.map_eq_some_iff.mp hcl
  cases hpair
  exact addLookup_leads hn' (by rw [hgrows.catalog]; exact htable) hc hl

/-- A navigation member that has no child yet gets one. -/
theorem addNavigation_leads {origin : Nat} {member path : String}
    (hfree : (ctx.child? origin (.navigation member)).isNone) :
    (addNavigation origin member path).Leads ctx fun i ctx' =>
      ctx'.child? origin (.navigation member) = some i := by
  unfold addNavigation
  refine Leads.look_bind ?_
  rintro ⟨target, link⟩ h
  obtain ⟨n, hn, h⟩ := Except.bind_eq_ok_iff.mp h
  obtain ⟨table, htable, h⟩ := Except.bind_eq_ok_iff.mp h
  have hn := node_eq_ok_iff.mp hn
  have htable := entityTable_eq_ok_iff.mp htable
  split at h
  · cases h
  · rename_i r hr
    obtain ⟨foreignTable, hforeign, h⟩ := Except.bind_eq_ok_iff.mp h
    obtain ⟨foreignKey, hkey, h⟩ := Except.bind_eq_ok_iff.mp h
    cases h
    have hlink : Link.Declared ctx.catalog n.entity (r.target n.entity)
        (linkOf origin n.entity r foreignKey.nullable) :=
      .navigation origin htable hr (entityTable_eq_ok_iff.mp hforeign)
        (Except.mapError_eq_ok_iff.mp hkey)
    have hname : r.name = member := (Table.mem_of_relationship? hr).2
    have hadd := addNode_leads (by simpa using hn) hlink
      (by simpa [hname] using child?_eq_none hn hfree)
    refine hadd.bind fun index _ _ hchild => ?_
    refine (addLookups_leads index).bind fun _ _ hgrows _ => Leads.pure (hgrows.child? ?_)
    simpa [hname] using hchild

/-- The node that a path leads to. -/
def Reaches (ctx : Context) (start : Nat) (path : String) (i : Nat) : Prop :=
  ∃ segments, pathSegments path = .ok segments ∧
    ctx.descend? start (segments.map .navigation) = some i

theorem addSegments_leads {path : String} {segments : List String} (i : Nat) :
    (addSegments path i segments).Leads ctx fun j ctx' =>
      ctx'.descend? i (segments.map .navigation) = some j := by
  induction segments generalizing i ctx with
  | nil => exact Leads.pure rfl
  | cons member rest ih =>
      have hstep : ∀ {next : Nat} {ctx : Context}, ctx.child? i (.navigation member) = some next →
          (addSegments path next rest).Leads ctx fun j ctx' =>
            ctx'.descend? i ((member :: rest).map .navigation) = some j := by
        intro next ctx hnext
        refine (ih next).mono fun j ctx' hgrows hj => ?_
        rw [List.map_cons, descend?_cons, hgrows.child? hnext]
        exact hj
      unfold addSegments
      refine Leads.get_bind ?_
      split
      · rename_i hnext
        exact hstep hnext
      · rename_i hnone
        exact (addNavigation_leads (by simp [hnone])).bind fun next _ _ hnext => hstep hnext

theorem addPath_leads (start : Nat) (path : String) :
    (addPath start path).Leads ctx fun i ctx' => ctx'.Reaches start path i := by
  unfold addPath
  refine Leads.look_bind fun _ _ => Leads.look_bind fun segments hsegments => ?_
  exact (addSegments_leads start).mono fun i _ _ hi => ⟨segments, hsegments, hi⟩

/-- A path to a member leads to the column of the member, at the node that the rest of the path
leads to. -/
theorem resolvePath_leads (start : Nat) (path : String) :
    (resolvePath start path).Leads ctx fun column ctx' => ∃ nodePath member i,
      Path.splitMember? path = some (nodePath, member) ∧ ctx'.Reaches start nodePath i ∧
      ctx'.resolveMember i member start = .ok column := by
  unfold resolvePath
  split
  · exact Leads.throw _
  · rename_i nodePath member hsplit
    refine (addPath_leads start nodePath).bind fun i _ _ hi => ?_
    exact Leads.look fun column hcolumn => ⟨nodePath, member, i, hsplit, hi, hcolumn⟩

/-- What is left of a context that is started for an entity has grown from its root. -/
theorem ofEntity_grows {catalog : Catalog} {entity : String}
    (h : ofEntity catalog entity = .ok ctx) :
    ∃ table, catalog.table entity = .ok table ∧
      Grows { catalog
              nodes := #[{ index := root, entity, table := table.table, level := 0, link := none
                           joinKind := .inner, children := [] }] } ctx := by
  unfold ofEntity at h
  obtain ⟨table, htable, h⟩ := Except.bind_eq_ok_iff.mp h
  refine ⟨table, Except.mapError_eq_ok_iff.mp htable, ?_⟩
  obtain ⟨_, _, h⟩ := Except.bind_eq_ok_iff.mp h
  cases h
  exact (addLookups_leads root).grows

end Context

end EntityMap
