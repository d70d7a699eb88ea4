import Mathlib.Data.List.Nodup

/-!
# Lists without repetitions

`List.eraseDups` keeps the first occurrence of every element: each is
there once, in the order of these occurrences, and an element that is added
at the end is kept if it is new.

A list with one element of each class is no longer than any list with some
element of each. In an association list whose names are distinct every entry is
found under its name.
-/

namespace EntityMap

theorem length_le_of_covered {α : Type} {R : α → α → Prop} (hsymm : ∀ {a b}, R a b → R b a)
    (htrans : ∀ {a b c}, R a b → R b c → R a c) {l l' : List α}
    (hapart : l.Pairwise fun a b => ¬ R a b) (hcovered : ∀ a ∈ l, ∃ b ∈ l', R a b) :
    l.length ≤ l'.length := by
  induction l generalizing l' with
  | nil => exact Nat.zero_le _
  | cons a rest ih =>
      obtain ⟨hfirst, hrest⟩ := List.pairwise_cons.mp hapart
      obtain ⟨b, hb, hab⟩ := hcovered a (List.mem_cons_self ..)
      obtain ⟨pre, post, rfl⟩ := List.append_of_mem hb
      -- what covers the others is not what covers the first
      have hothers : ∀ a' ∈ rest, ∃ b' ∈ pre ++ post, R a' b' := by
        intro a' ha'
        obtain ⟨b', hb', hab'⟩ := hcovered a' (List.mem_cons_of_mem _ ha')
        have hne : b' ≠ b := fun heq => hfirst a' ha' (htrans hab (hsymm (heq ▸ hab')))
        refine ⟨b', ?_, hab'⟩
        rcases List.mem_append.mp hb' with hmem | hmem
        · exact List.mem_append_left _ hmem
        · exact List.mem_append_right _ ((List.mem_cons.mp hmem).resolve_left hne)
      have hle := ih hrest hothers
      simp only [List.length_append, List.length_cons] at hle ⊢
      omega

/-- The element of a name, where names are distinct. -/
theorem find?_eq_some_of_nodup_map {α β : Type} [DecidableEq β] {name : α → β} {l : List α} {a : α}
    (hnames : (l.map name).Nodup) (ha : a ∈ l) : l.find? (name · = name a) = some a := by
  cases hfind : l.find? (name · = name a) with
  | none => simpa using List.find?_eq_none.mp hfind a ha
  | some b =>
      have hname : name b = name a := by simpa using List.find?_some hfind
      rw [List.inj_on_of_nodup_map hnames (List.mem_of_find?_eq_some hfind) ha hname]

variable {α : Type} [BEq α] [LawfulBEq α]

theorem lookup_eq_some_iff_mem {β : Type} {a : α} {b : β} {entries : List (α × β)}
    (hnames : (entries.map (·.1)).Nodup) : entries.lookup a = some b ↔ (a, b) ∈ entries := by
  induction entries with
  | nil => simp
  | cons entry rest ih =>
      obtain ⟨name, b'⟩ := entry
      obtain ⟨hfresh, hnames⟩ := List.nodup_cons.mp hnames
      by_cases hname : a = name
      · subst hname
        have hother : (a, b) ∉ rest := fun hmem => hfresh (List.mem_map.mpr ⟨_, hmem, rfl⟩)
        simp [hother, eq_comm]
      · simp [List.lookup_cons, beq_eq_false_iff_ne.mpr hname, hname, ih hnames]

theorem nodup_eraseDups (l : List α) : l.eraseDups.Nodup := by
  induction hn : l.length using Nat.strongRecOn generalizing l with
  | ind n ih =>
      cases l with
      | nil => simp
      | cons a rest =>
          rw [List.eraseDups_cons, List.nodup_cons]
          have hlt : (rest.filter fun b => !b == a).length < n := by
            have := List.length_filter_le (fun b => !b == a) rest
            simp only [List.length_cons] at hn
            omega
          exact ⟨by simp [List.mem_eraseDups], ih _ hlt _ rfl⟩

/-- What passes a filter keeps its order of first occurrence. -/
theorem idxOf_lt_of_filter {p : α → Bool} {l : List α} {a b : α} (ha : p a) (hb : p b)
    (h : (l.filter p).idxOf a < (l.filter p).idxOf b) : l.idxOf a < l.idxOf b := by
  induction l with
  | nil => simp at h
  | cons c rest ih =>
      by_cases hc : p c
      · rw [List.filter_cons_of_pos hc] at h
        by_cases hca : c = a
        · by_cases hcb : c = b
          · simp [← hca, ← hcb] at h
          · simp [hca, List.idxOf_cons_ne _ (hca ▸ hcb)]
        · by_cases hcb : c = b
          · simp [hcb] at h
          · rw [List.idxOf_cons_ne _ hca, List.idxOf_cons_ne _ hcb] at h ⊢
            exact Nat.succ_lt_succ (ih (Nat.lt_of_succ_lt_succ h))
      · rw [List.filter_cons_of_neg hc] at h
        have hca : c ≠ a := fun heq => hc (heq ▸ ha)
        have hcb : c ≠ b := fun heq => hc (heq ▸ hb)
        rw [List.idxOf_cons_ne _ hca, List.idxOf_cons_ne _ hcb]
        exact Nat.succ_lt_succ (ih h)

/-- Distinct elements stand in the order of their first occurrence. -/
theorem pairwise_idxOf_eraseDups (l : List α) :
    l.eraseDups.Pairwise fun a b => l.idxOf a < l.idxOf b := by
  induction hn : l.length using Nat.strongRecOn generalizing l with
  | ind n ih =>
      cases l with
      | nil => simp
      | cons a rest =>
          rw [List.eraseDups_cons]
          have hlt : (rest.filter fun b => !b == a).length < n := by
            have := List.length_filter_le (fun b => !b == a) rest
            simp only [List.length_cons] at hn
            omega
          have hother : ∀ b ∈ (rest.filter fun b => !b == a).eraseDups, (!b == a) = true :=
            fun b hb => (List.mem_filter.mp (List.mem_eraseDups.mp hb)).2
          have hne : ∀ b ∈ (rest.filter fun b => !b == a).eraseDups, a ≠ b := by
            rintro b hb rfl
            simp at hb
          refine List.pairwise_cons.mpr ⟨fun b hb => ?_, ?_⟩
          · rw [List.idxOf_cons_self, List.idxOf_cons_ne _ (hne b hb)]
            exact Nat.succ_pos _
          · refine (ih _ hlt _ rfl).imp_of_mem fun {b c} hb hc h => ?_
            rw [List.idxOf_cons_ne _ (hne b hb), List.idxOf_cons_ne _ (hne c hc)]
            exact Nat.succ_lt_succ (idxOf_lt_of_filter (hother b hb) (hother c hc) h)

theorem eraseDups_concat (l : List α) (a : α) :
    (l ++ [a]).eraseDups = if l.contains a then l.eraseDups else l.eraseDups ++ [a] := by
  rw [List.eraseDups_append]
  by_cases ha : l.contains a
  · rw [if_pos ha]
    simp [List.removeAll, List.contains_iff_mem.mp ha]
  · rw [if_neg ha]
    have hnot : a ∉ l := fun hmem => ha (List.contains_iff_mem.mpr hmem)
    simp [List.removeAll, hnot, List.eraseDups_cons]

end EntityMap
