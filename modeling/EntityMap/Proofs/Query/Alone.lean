import EntityMap.Proofs.Context.Growing
import EntityMap.Proofs.Names
import EntityMap.Proofs.Query.Closure
import EntityMap.Query.Draft

/-!
# Queries of one table

A name without a dot is a path to a member of the target itself
(`Path.splitMember?_of_plain`), and such a member without a lookup is the
target's own column, for which the context does not grow
(`Context.run_resolvePath_of_plain`). A draft that reads columns of its
target alone is planned without a join (`Context.plan_eq_of_alone`).
-/

namespace EntityMap

/-! ## Plain names -/

namespace Path

/-- A name that is a path of one step. -/
structure IsPlain (name : String) : Prop where
  nonempty : name ≠ ""
  dotless : '.' ∉ name.toList

/-- A plain name is the member, and the path in front of it is empty. -/
theorem splitMember?_of_plain {name : String} (h : IsPlain name) :
    splitMember? name = some ("", name) := by
  have hsegments := segments_of_notMem h.dotless
  have hempty : name.isEmpty = false := by
    simpa [String.isEmpty_iff] using h.nonempty
  simp [splitMember?, hsegments, hempty, join]

end Path

/-- A draft that reads columns of its target alone. -/
structure Draft.Alone (d : Draft) : Prop where
  referenced : ∀ i ∈ d.referencedNodes, i = d.target
  filtered : ∀ filter, d.filter = some filter → ∀ c ∈ filter.members, c.node = d.target

namespace Context

open Growing

variable {ctx : Context} {d : Draft} {i : Nat} {n : Node} {t : Table} {c : Column} {path : String}

theorem run_addPath_empty (hn : ctx.nodes[i]? = some n) :
    (addPath i "").run ctx = (.ok i, ctx) := by
  unfold addPath
  rw [run_look_bind, node_eq_ok_iff.mpr hn]
  rfl

/-- A member without a lookup is a column of its node, where the search starts there. -/
theorem resolveMember_of_plain (hn : ctx.nodes[i]? = some n)
    (ht : ctx.catalog.table n.entity = .ok t) (hc : t.column path = .ok c)
    (hlookup : c.lookup = none) :
    ctx.resolveMember i path i = .ok { node := i, member := c.member, column := c.column } := by
  unfold resolveMember
  rw [node_eq_ok_iff.mpr hn]
  dsimp only [bind, Except.bind]
  rw [entityTable_eq_ok_iff.mpr ht]
  dsimp only
  rw [Table.column_eq_ok_iff.mp hc]
  dsimp only
  rw [hlookup]
  dsimp only
  rw [if_neg (by simp)]
  rfl

theorem run_resolvePath_of_plain (hplain : Path.IsPlain path) (hn : ctx.nodes[i]? = some n)
    (ht : ctx.catalog.table n.entity = .ok t) (hc : t.column path = .ok c)
    (hlookup : c.lookup = none) :
    (resolvePath i path).run ctx =
      (.ok { node := i, member := c.member, column := c.column }, ctx) := by
  unfold resolvePath
  rw [Path.splitMember?_of_plain hplain]
  dsimp only
  rw [run_bind, run_addPath_empty hn]
  dsimp only
  rw [run_look, resolveMember_of_plain hn ht hc hlookup]

/-! ## Drafts on their target -/

theorem byLevel_eq_singleton {l : List Nat} (hmem : i ∈ l) (honly : ∀ j ∈ l, j = i) :
    ctx.byLevel l = [i] := by
  have hnodup : (ctx.byLevel l).Nodup :=
    (List.mergeSort_perm ..).nodup_iff.mpr (nodup_eraseDups l)
  refine List.perm_singleton.mp
    ((List.perm_ext_iff_of_nodup hnodup (List.nodup_singleton i)).mpr ?_)
  intro j
  rw [mem_byLevel, List.mem_singleton]
  exact ⟨honly j, fun heq => heq ▸ hmem⟩

/-- A draft of its target alone closes to its target, and nothing is forced. -/
theorem closure_eq_of_alone (h : d.Alone) :
    ctx.closure d = .ok { nodes := [d.target], forced := [] } := by
  have hfilterOnly : d.filterOnlyNodes = [] := by
    refine List.eq_nil_iff_forall_not_mem.mpr fun i hi => ?_
    obtain ⟨hnot, filter, hfilter, c, hc, rfl⟩ := Draft.mem_filterOnlyNodes.mp hi
    exact hnot (h.filtered filter hfilter c hc ▸ Draft.mem_referencedNodes.mpr (.inl rfl))
  have hreferenced : ctx.byLevel d.referencedNodes = [d.target] :=
    byLevel_eq_singleton (Draft.mem_referencedNodes.mpr (.inl rfl)) h.referenced
  have hclose : ctx.close d.target { nodes := [], forced := [] } d.target =
      .ok { nodes := [d.target], forced := [] } := by
    rw [close_eq_ok_iff]
    exact ⟨by simp [isAncestorOrSelf], by simp [Closure.insert]⟩
  have hempty : ctx.byLevel [] = [] := by simp [byLevel]
  unfold closure
  rw [hfilterOnly, hreferenced, hempty]
  show [d.target].foldlM (ctx.close d.target) { nodes := [], forced := [] } = _
  rw [List.foldlM_cons, hclose]
  rfl

/-- It is planned without a join. -/
theorem plan_eq_of_alone {key : NodeColumn} (h : d.Alone) (hn : ctx.nodes[d.target]? = some n)
    (hkey : ctx.keyColumn d.target = .ok key) :
    ctx.plan d = .ok
      { d with
        targetKey := key
        base := { node := d.target, entity := n.entity, table := n.table }
        joins := []
        invertedNodes := [] } := by
  have hjoins : ∀ forced joined, ctx.joins forced joined [] = .ok [] := by
    intro forced joined
    unfold joins
    rfl
  unfold plan
  rw [hkey, closure_eq_of_alone h]
  dsimp only [bind, Except.bind, List.headD_cons]
  rw [List.erase_cons_head, hjoins]
  dsimp only
  rw [node_eq_ok_iff.mpr hn]
  simp [Except.mapError, pure, Except.pure]

end Context

end EntityMap
