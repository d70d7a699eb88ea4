import EntityMap.Path
import Mathlib.Data.List.Infix

/-!
# Paths and their parts

A path is split at its dots, so its parts have none, and names without
dots are the parts of the path that joins them (`Path.segments_join_of`).
The parts of an included path are not blank either (`Path.AreParts`):
such names are told apart by the paths that join them.
-/

namespace EntityMap.Path

/-! ## Splitting -/

theorem splitDots_ne_nil (cs : List Char) : splitDots cs ≠ [] := by
  cases cs with
  | nil => simp [splitDots]
  | cons c rest =>
      rw [splitDots]
      split
      · simp
      · split <;> simp

theorem splitDots_append_dot (cs ds : List Char) :
    splitDots (cs ++ '.' :: ds) = splitDots cs ++ splitDots ds := by
  induction cs with
  | nil => rfl
  | cons c rest ih =>
      rw [List.cons_append, splitDots, splitDots, ih]
      by_cases hdot : c = '.'
      · rw [if_pos hdot, if_pos hdot, List.cons_append]
      · rw [if_neg hdot, if_neg hdot]
        cases hparts : splitDots rest with
        | nil => exact absurd hparts (splitDots_ne_nil rest)
        | cons part parts => rfl

theorem splitDots_of_notMem {cs : List Char} (h : '.' ∉ cs) : splitDots cs = [cs] := by
  induction cs with
  | nil => rfl
  | cons c rest ih =>
      obtain ⟨hc, hrest⟩ := not_or.mp (List.mem_cons.not.mp h)
      rw [splitDots, if_neg (Ne.symm hc), ih hrest]

theorem notMem_of_mem_splitDots {cs part : List Char} (h : part ∈ splitDots cs) : '.' ∉ part := by
  induction cs generalizing part with
  | nil =>
      obtain rfl := List.mem_singleton.mp h
      simp
  | cons c rest ih =>
      rw [splitDots] at h
      split at h
      · rcases List.mem_cons.mp h with rfl | h
        · simp
        · exact ih h
      · rename_i hdot
        split at h
        · obtain rfl := List.mem_singleton.mp h
          simpa using Ne.symm hdot
        · rename_i first parts hparts
          rcases List.mem_cons.mp h with rfl | h
          · have hfirst : '.' ∉ first := ih (hparts ▸ List.mem_cons_self ..)
            simpa [hfirst] using Ne.symm hdot
          · exact ih (hparts ▸ List.mem_cons_of_mem _ h)

theorem toList_join (p q : String) : (p ++ "." ++ q).toList = p.toList ++ '.' :: q.toList := by
  simp

theorem segments_join (p q : String) : segments (p ++ "." ++ q) = segments p ++ segments q := by
  rw [segments, segments, segments, toList_join, splitDots_append_dot, List.map_append]

theorem hasBlank_join (p q : String) : hasBlank (p ++ "." ++ q) = (hasBlank p || hasBlank q) := by
  rw [hasBlank, hasBlank, hasBlank, toList_join, splitDots_append_dot, List.any_append]

theorem segments_of_notMem {name : String} (h : '.' ∉ name.toList) : segments name = [name] := by
  rw [segments, splitDots_of_notMem h, List.map_singleton, String.ofList_toList]

theorem notMem_of_mem_segments {path name : String} (h : name ∈ segments path) :
    '.' ∉ name.toList := by
  obtain ⟨part, hpart, rfl⟩ := List.mem_map.mp h
  rw [String.toList_ofList]
  exact notMem_of_mem_splitDots hpart

/-! ## Joining -/

theorem join_cons {name : String} {names : List String} (h : names ≠ []) :
    join (name :: names) = name ++ "." ++ join names := by
  cases names with
  | nil => exact absurd rfl h
  | cons next rest => exact String.intercalate_cons_cons

theorem join_append {names names' : List String} (h : names ≠ []) (h' : names' ≠ []) :
    join (names ++ names') = join names ++ "." ++ join names' :=
  String.intercalate_append_of_ne_nil h h'

/-- Names without dots are the parts of the path that joins them. -/
theorem segments_join_of {names : List String} (hne : names ≠ [])
    (h : ∀ name ∈ names, '.' ∉ name.toList) : segments (join names) = names := by
  induction names with
  | nil => exact absurd rfl hne
  | cons name rest ih =>
      have hname := segments_of_notMem (h name (List.mem_cons_self ..))
      cases rest with
      | nil => exact hname
      | cons next more =>
          have hrest : segments (join (next :: more)) = next :: more :=
            ih (by simp) fun name hmem => h name (List.mem_cons_of_mem _ hmem)
          rw [join_cons (by simp), segments_join, hname, hrest, List.singleton_append]

/-- A path is put together from its parts again. -/
theorem join_segments (path : String) : join (segments path) = path := by
  suffices h : ∀ cs, join ((splitDots cs).map String.ofList) = String.ofList cs by
    rw [segments, h, String.ofList_toList]
  intro cs
  induction cs with
  | nil => rfl
  | cons c rest ih =>
      cases hparts : splitDots rest with
      | nil => exact absurd hparts (splitDots_ne_nil rest)
      | cons part parts =>
          rw [hparts] at ih
          rw [splitDots, hparts]
          by_cases hdot : c = '.'
          · rw [if_pos hdot, List.map_cons, join_cons (by simp), ih]
            ext1
            simp [hdot]
          · rw [if_neg hdot]
            cases parts with
            | nil => simpa [join, String.ext_iff] using ih
            | cons next more =>
                rw [List.map_cons, join_cons (by simp)] at ih ⊢
                rw [String.ext_iff] at ih ⊢
                simpa using ih

/-- Names without dots are told apart by the paths that join them. -/
theorem join_inj {names names' : List String} (hne : names ≠ []) (hne' : names' ≠ [])
    (h : ∀ name ∈ names, '.' ∉ name.toList) (h' : ∀ name ∈ names', '.' ∉ name.toList)
    (heq : join names = join names') : names = names' := by
  rw [← segments_join_of hne h, heq, segments_join_of hne' h']

/-! ## Parts that are not blank -/

/-- Names that are parts of a path on which no part is blank. -/
def AreParts (names : List String) : Prop :=
  ∀ name ∈ names, '.' ∉ name.toList ∧ Text.isBlank name.toList = false

namespace AreParts

variable {names names' : List String}

theorem nil : AreParts [] := by
  simp [AreParts]

theorem append_iff : AreParts (names ++ names') ↔ AreParts names ∧ AreParts names' :=
  List.forall_mem_append

theorem mono (h : AreParts names) (hsub : ∀ name ∈ names', name ∈ names) : AreParts names' :=
  fun name hname => h name (hsub name hname)

theorem of_prefix (h : AreParts names) (hpre : names' <+: names) : AreParts names' :=
  h.mono fun _ hname => hpre.subset hname

theorem dotless (h : AreParts names) : ∀ name ∈ names, '.' ∉ name.toList :=
  fun name hname => (h name hname).1

theorem segments_join (h : AreParts names) (hne : names ≠ []) : segments (join names) = names :=
  segments_join_of hne h.dotless

theorem join_ne_empty (h : AreParts names) (hne : names ≠ []) : join names ≠ "" := by
  intro hempty
  have hsegments : names = segments "" := by rw [← hempty, h.segments_join hne]
  obtain ⟨-, hblank⟩ := h "" (hsegments ▸ List.mem_singleton_self _)
  cases hblank

theorem join_inj (h : AreParts names) (h' : AreParts names') (heq : join names = join names') :
    names = names' := by
  cases names with
  | nil =>
      cases names' with
      | nil => rfl
      | cons => exact absurd heq.symm (h'.join_ne_empty (by simp))
  | cons =>
      cases names' with
      | nil => exact absurd heq (h.join_ne_empty (by simp))
      | cons => exact Path.join_inj (by simp) (by simp) h.dotless h'.dotless heq

/-- Names behind parts are told apart as well, blank or not, unless they have dots. -/
theorem join_concat_inj {name name' : String} (h : AreParts names) (h' : AreParts names')
    (hname : '.' ∉ name.toList) (hname' : '.' ∉ name'.toList)
    (heq : join (names ++ [name]) = join (names' ++ [name'])) : names = names' ∧ name = name' := by
  have hsame : names ++ [name] = names' ++ [name'] := by
    refine Path.join_inj (by simp) (by simp) ?_ ?_ heq
    · exact List.forall_mem_append.mpr ⟨h.dotless, by simpa using hname⟩
    · exact List.forall_mem_append.mpr ⟨h'.dotless, by simpa using hname'⟩
  obtain ⟨hnames, hlast⟩ := List.append_inj' hsame rfl
  exact ⟨hnames, (List.cons.inj hlast).1⟩

end AreParts

/-- The parts of a path without a blank part. -/
theorem areParts_segments {path : String} (h : hasBlank path = false) :
    AreParts (segments path) := by
  intro name hname
  refine ⟨notMem_of_mem_segments hname, ?_⟩
  obtain ⟨part, hpart, rfl⟩ := List.mem_map.mp hname
  rw [String.toList_ofList]
  simpa using List.any_eq_false.mp h part hpart

/-- A name below a path is joined to the names of the path. -/
theorem below_join {names names' : List String} (h : AreParts names) (hne : names' ≠ []) :
    below (join names) (join names') = join (names ++ names') := by
  cases names with
  | nil => rfl
  | cons name rest =>
      have hempty : (join (name :: rest)).isEmpty = false := by
        simpa [String.isEmpty_iff] using h.join_ne_empty (by simp)
      rw [below, hempty, join_append (by simp) hne]
      rfl

theorem below_join_singleton {names : List String} (h : AreParts names) (name : String) :
    below (join names) name = join (names ++ [name]) := by
  have hjoin : below (join names) (join [name]) = join (names ++ [name]) :=
    below_join h (by simp)
  exact hjoin

end EntityMap.Path
