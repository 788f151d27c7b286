import Mathlib.Data.List.Induction

/-!
# Paths

A path is a text whose components stand between separators. Of two component names one stands for the directory itself and one
for its parent; a path is resolved from a directory, which is the list of the names that lead to it from the root. Above the root
is the root.
-/

namespace Paths

variable {α : Type} [DecidableEq α]

/-- The components of a path: what stands between two separators, unless that is nothing. -/
def components (sep : α) (path : List α) : List (List α) := (path.splitOn sep).filter (· ≠ [])

/-! ## Components -/

/-- The components on both sides of a separator. -/
theorem components_append_cons (sep : α) (first second : List α) :
    components sep (first ++ sep :: second) = components sep first ++ components sep second := by
  unfold components
  rw [List.splitOn_eq_splitOnP, List.splitOn_eq_splitOnP, List.splitOn_eq_splitOnP, List.splitOnP_append_cons _ _ (by simp),
    List.filter_append]

theorem components_nil (sep : α) : components sep [] = [] := by
  unfold components
  rw [List.splitOn_eq_splitOnP, List.splitOnP_nil]
  rfl

/-- A separator in front adds no component. -/
theorem components_cons (sep : α) (path : List α) : components sep (sep :: path) = components sep path := by
  have h := components_append_cons sep [] path
  rwa [components_nil] at h

/-- A name without a separator is one component. -/
theorem components_name {sep : α} {name : List α} (h : sep ∉ name) (hne : name ≠ []) : components sep name = [name] := by
  have hsplit : name.splitOn sep = [name] := by
    rw [List.splitOn_eq_splitOnP]
    exact List.splitOnP_eq_singleton fun c hc => by simpa using fun heq : c = sep => h (heq ▸ hc)
  unfold components
  rw [hsplit]
  simp [hne]

/-- Separators in front add no component. -/
theorem components_append_left {sep : α} {seps : List α} (h : ∀ c ∈ seps, c = sep) (path : List α) :
    components sep (seps ++ path) = components sep path := by
  induction seps with
  | nil => rfl
  | cons c seps ih =>
    obtain ⟨rfl, hseps⟩ := List.forall_mem_cons.mp h
    rw [List.cons_append, components_cons, ih hseps]

/-- Separators behind add no component. -/
theorem components_append_right {sep : α} {seps : List α} (h : ∀ c ∈ seps, c = sep) (path : List α) :
    components sep (path ++ seps) = components sep path := by
  rcases seps with _ | ⟨c, seps⟩
  · rw [List.append_nil]
  · obtain ⟨rfl, hseps⟩ := List.forall_mem_cons.mp h
    have hrest := components_append_left hseps []
    rw [List.append_nil, components_nil] at hrest
    rw [components_append_cons, hrest, List.append_nil]

/-- The names of a path come back from its text, in which a separator stands before each. -/
theorem components_flatMap {sep : α} {names : List (List α)} (h : ∀ name ∈ names, name ≠ [] ∧ sep ∉ name) :
    components sep (names.flatMap fun name => sep :: name) = names := by
  induction names with
  | nil => exact components_nil sep
  | cons name names ih =>
    obtain ⟨⟨hne, hsep⟩, hnames⟩ := List.forall_mem_cons.mp h
    have hname := components_name hsep hne
    have hrest : components sep (name ++ names.flatMap fun name => sep :: name) = name :: names := by
      rcases names with _ | ⟨next, names⟩
      · rw [List.flatMap_nil, List.append_nil, hname]
      · have hmore := ih hnames
        rw [List.flatMap_cons, List.cons_append, components_cons] at hmore
        rw [List.flatMap_cons, List.cons_append, components_append_cons, hname, hmore, List.singleton_append]
    rw [List.flatMap_cons, List.cons_append, components_cons, hrest]

/-! ## Resolving -/

section Resolve

variable {Name : Type} [DecidableEq Name] (here parent : Name)

/-- One component further. -/
def step (dir : List Name) (name : Name) : List Name :=
  if name = here then dir else if name = parent then dir.dropLast else dir ++ [name]

/-- The directory or file that a path leads to from a directory. -/
def resolve (dir : List Name) (path : List Name) : List Name := path.foldl (step here parent) dir

/-- Names of which none stands for the directory or its parent lead down. -/
theorem resolve_of_names {dir path : List Name} (h : ∀ name ∈ path, name ≠ here ∧ name ≠ parent) :
    resolve here parent dir path = dir ++ path := by
  induction path generalizing dir with
  | nil => exact (List.append_nil dir).symm
  | cons name path ih =>
    obtain ⟨⟨hhere, hparent⟩, hpath⟩ := List.forall_mem_cons.mp h
    have hstep : step here parent dir name = dir ++ [name] := by rw [step, if_neg hhere, if_neg hparent]
    have hrest : resolve here parent (dir ++ [name]) path = dir ++ [name] ++ path := ih hpath
    rw [resolve] at hrest ⊢
    rw [List.foldl_cons, hstep, hrest, List.append_assoc, List.singleton_append]

/-- A path in its shortest form: so many times to the parent, then along the names. -/
structure Normal (Name : Type) where
  ups : Nat
  downs : List Name

/-- The shortest form of a path with one component more: a parent takes back the name before it. -/
def Normal.step (here parent : Name) (n : Normal Name) (name : Name) : Normal Name :=
  if name = here then n
  else if name = parent then
    if n.downs = [] then ⟨n.ups + 1, []⟩ else ⟨n.ups, n.downs.dropLast⟩
  else ⟨n.ups, n.downs ++ [name]⟩

/-- The shortest form of a path. -/
def normal (path : List Name) : Normal Name := path.foldl (Normal.step here parent) ⟨0, []⟩

/-- A path leads where its shortest form leads. -/
theorem resolve_eq_normal (dir path : List Name) :
    resolve here parent dir path =
      dir.take (dir.length - (normal here parent path).ups) ++ (normal here parent path).downs := by
  induction path using List.reverseRecOn with
  | nil => simp [resolve, normal]
  | append_singleton path name ih =>
    have hdir : resolve here parent dir (path ++ [name]) = Paths.step here parent (resolve here parent dir path) name := by
      rw [resolve, List.foldl_append]
      rfl
    have hnormal : normal here parent (path ++ [name]) = (normal here parent path).step here parent name := by
      rw [normal, List.foldl_append]
      rfl
    rw [hdir, hnormal, ih]
    generalize normal here parent path = n
    unfold Paths.step Normal.step
    by_cases hhere : name = here
    · rw [if_pos hhere, if_pos hhere]
    · rw [if_neg hhere, if_neg hhere]
      by_cases hparent : name = parent
      · rw [if_pos hparent, if_pos hparent]
        by_cases hdowns : n.downs = []
        · rw [if_pos hdowns, hdowns, List.append_nil, List.append_nil, List.dropLast_eq_take, List.take_take,
            List.length_take]
          have hlength : min (min (dir.length - n.ups) dir.length - 1) (dir.length - n.ups) = dir.length - (n.ups + 1) := by omega
          exact congrArg dir.take hlength
        · rw [if_neg hdowns, List.dropLast_append_of_ne_nil hdowns]
      · rw [if_neg hparent, if_neg hparent, List.append_assoc]

/-- A path leads to a name directly in the directory it starts from exactly when, in its shortest form, it goes up some levels
and back down the same names, and then along one name more. -/
theorem exists_resolve_eq_append (dir path : List Name) :
    (∃ name, resolve here parent dir path = dir ++ [name]) ↔
      (normal here parent path).downs ≠ [] ∧
        (normal here parent path).downs.dropLast = dir.drop (dir.length - (normal here parent path).ups) := by
  rw [resolve_eq_normal]
  generalize normal here parent path = n
  constructor
  · rintro ⟨name, heq⟩
    have hsplit : dir ++ [name] = dir.take (dir.length - n.ups) ++ (dir.drop (dir.length - n.ups) ++ [name]) := by
      rw [← List.append_assoc, List.take_append_drop]
    rw [hsplit] at heq
    have hdowns := List.append_cancel_left heq
    rw [hdowns]
    exact ⟨by simp, by simp⟩
  · rintro ⟨hne, hdrop⟩
    have hsplit := List.dropLast_concat_getLast hne
    rw [hdrop] at hsplit
    refine ⟨n.downs.getLast hne, ?_⟩
    calc dir.take (dir.length - n.ups) ++ n.downs
        = dir.take (dir.length - n.ups) ++ (dir.drop (dir.length - n.ups) ++ [n.downs.getLast hne]) := by rw [hsplit]
      _ = dir ++ [n.downs.getLast hne] := by rw [← List.append_assoc, List.take_append_drop]

end Resolve

end Paths
