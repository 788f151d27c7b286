import Mathlib.Data.List.Induction
import Mathlib.Data.List.Infix

/-!
# File systems

Directories, files and links by the names that lead to them from the root. A path is followed name by name, from a directory or
from the root. A link on the way is followed in its turn, as often as the system allows; what a path leads to is what the last of
its names stands for, also when that is a link.
-/

namespace FileSystem

/-- What stands at a place. -/
inductive Node (Content Target : Type) where
  | dir
  | file (content : Content)
  | link (target : Target)
deriving DecidableEq

/-- What stands at each place: the root is a directory, and everything else stands in one. -/
@[ext] structure Files (Name Content Target : Type) where
  node : List Name → Option (Node Content Target)
  root : node [] = some .dir
  inDir : ∀ place name, node (place ++ [name]) ≠ none → node place = some .dir

/-- How paths are read: the names of a directory itself and of its parent, the path that a link leads to, from the root or from
the directory of the link, and how many links may be followed. -/
structure Rules (Name Target : Type) where
  here : Name
  parent : Name
  leads : Target → Bool × List Name
  maxLinks : Nat

/-- A name of a file or a directory. -/
def Rules.Ordinary {Name Target : Type} (rules : Rules Name Target) (name : Name) : Prop :=
  name ≠ rules.here ∧ name ≠ rules.parent

/-- Where a path comes to when no link is followed. -/
inductive Stop (Name Target : Type) where
  | arrived (place : List Name)
  | link (place : List Name) (target : Target) (rest : List Name)
  | nowhere

variable {Name Content Target : Type} [DecidableEq Name]

section

variable (rules : Rules Name Target) (fs : Files Name Content Target)

/-- Along a path from a place up to the next link. -/
def advance (place : List Name) : List Name → Stop Name Target
  | [] => .arrived place
  | name :: path =>
    if name = rules.here then advance place path
    else if name = rules.parent then advance place.dropLast path
    else
      match fs.node (place ++ [name]) with
      | none => .nowhere
      | some .dir => advance (place ++ [name]) path
      | some (.file _) => if path = [] then .arrived (place ++ [name]) else .nowhere
      | some (.link target) => .link place target path

/-- Along a path from a place, with so many links to follow at most: the place it leads to and how many links are left. -/
def walk : Nat → List Name → List Name → Option (List Name × Nat)
  | 0, place, path =>
    match advance rules fs place path with
    | .arrived place => some (place, 0)
    | _ => none
  | n + 1, place, path =>
    match advance rules fs place path with
    | .arrived place => some (place, n + 1)
    | .nowhere => none
    | .link place target rest => walk n (if (rules.leads target).1 then [] else place) ((rules.leads target).2 ++ rest)

/-- The place of the directory that holds what a path leads to. -/
def directory (path : List Name) : Option (List Name) := (walk rules fs rules.maxLinks [] path.dropLast).map Prod.fst

/-- What a path leads to. -/
def lookup (path : List Name) : Option (Node Content Target) :=
  match path.getLast? with
  | none => fs.node []
  | some name => (directory rules fs path).bind fun place => fs.node (place ++ [name])

end

/-- Whether a directory stands at a place. -/
def isDir (fs : Files Name Content Target) (place : List Name) : Bool :=
  match fs.node place with
  | some .dir => true
  | _ => false

omit [DecidableEq Name] in
theorem isDir_iff {fs : Files Name Content Target} {place : List Name} : isDir fs place = true ↔ fs.node place = some .dir := by
  unfold isDir
  rcases fs.node place with _ | _ | _ | _ <;> simp

/-- Something new in a directory, unless its name is taken. -/
def Files.add (fs : Files Name Content Target) (place : List Name) (name : Name) (new : Node Content Target)
    (hdir : fs.node place = some .dir) : Files Name Content Target where
  node := fun p => if p = place ++ [name] ∧ (fs.node p).isNone then some new else fs.node p
  root := by
    rw [if_neg fun h => by simp at h]
    exact fs.root
  inDir := by
    have hkept : ∀ p, fs.node p = some .dir →
        (if p = place ++ [name] ∧ (fs.node p).isNone then some new else fs.node p) = some .dir := fun p hp => by
      rw [if_neg fun h => by simp [hp] at h, hp]
    intro p name' hnode
    by_cases hnew : p ++ [name'] = place ++ [name] ∧ (fs.node (p ++ [name'])).isNone
    · rw [(List.append_inj' hnew.1 rfl).1]
      exact hkept place hdir
    · rw [if_neg hnew] at hnode
      exact hkept p (fs.inDir p name' hnode)

/-- Something new where a path leads to, unless its name is taken or it would stand in no directory. -/
def make (rules : Rules Name Target) (fs : Files Name Content Target) (path : List Name) (new : Node Content Target) :
    Files Name Content Target :=
  match path.getLast?, directory rules fs path with
  | some name, some place => if h : isDir fs place = true then fs.add place name new (isDir_iff.mp h) else fs
  | _, _ => fs

/-- The directories of a path that are missing, from the first on; those up to a path are there. -/
def makeDirectories (rules : Rules Name Target) (fs : Files Name Content Target) (path : List Name) :
    List Name → Files Name Content Target
  | [] => fs
  | name :: rest => makeDirectories rules (make rules fs (path ++ [name]) .dir) (path ++ [name]) rest

/-! ## Directories -/

omit [DecidableEq Name] in
/-- Where a node is, something stands. -/
theorem Files.stands (fs : Files Name Content Target) {place : List Name} {node : Node Content Target}
    (h : fs.node place = some node) : fs.node place ≠ none := by
  rw [h]
  exact Option.some_ne_none node

omit [DecidableEq Name] in
/-- What stands above something is a directory. -/
theorem Files.dir_of_node (fs : Files Name Content Target) {place rest : List Name} (h : fs.node (place ++ rest) ≠ none)
    (hrest : rest ≠ []) : fs.node place = some .dir := by
  induction rest using List.reverseRecOn with
  | nil => exact absurd rfl hrest
  | append_singleton rest name ih =>
    rw [← List.append_assoc] at h
    have hdir := fs.inDir _ name h
    rcases eq_or_ne rest [] with rfl | hne
    · rwa [List.append_nil] at hdir
    · exact ih (fs.stands hdir) hne

omit [DecidableEq Name] in
/-- On the way to something there are directories. -/
theorem Files.dir_on_way (fs : Files Name Content Target) {place part path : List Name} (hpart : part <+: path)
    (h : fs.node (place ++ path) ≠ none) : part = path ∨ fs.node (place ++ part) = some .dir := by
  obtain ⟨more, rfl⟩ := hpart
  rcases eq_or_ne more [] with rfl | hne
  · exact Or.inl (List.append_nil part).symm
  · rw [← List.append_assoc] at h
    exact Or.inr (fs.dir_of_node h hne)

omit [DecidableEq Name] in
/-- Below what is no directory there is nothing. -/
theorem Files.node_below (fs : Files Name Content Target) {place rest : List Name} (h : fs.node place ≠ some .dir)
    (hrest : rest ≠ []) : fs.node (place ++ rest) = none :=
  by_contra fun hnode => h (fs.dir_of_node hnode hrest)

omit [DecidableEq Name] in
/-- Below a file there is no directory. -/
theorem Files.not_dir_of_file (fs : Files Name Content Target) {place part path : List Name} {content : Content}
    (hpart : part <+: path) (hfile : fs.node (place ++ part) = some (.file content)) : fs.node (place ++ path) ≠ some .dir := by
  intro hdir
  rcases fs.dir_on_way hpart (fs.stands hdir) with rfl | hway
  · rw [hfile] at hdir
    cases hdir
  · rw [hfile] at hway
    cases hway

/-- What stands somewhere still stands there. -/
def Kept (fs fs' : Files Name Content Target) : Prop := ∀ place node, fs.node place = some node → fs'.node place = some node

omit [DecidableEq Name] in
theorem Kept.refl (fs : Files Name Content Target) : Kept fs fs := fun _ _ h => h

omit [DecidableEq Name] in
theorem Kept.trans {fs fs' fs'' : Files Name Content Target} (h : Kept fs fs') (h' : Kept fs' fs'') : Kept fs fs'' :=
  fun place node hnode => h' place node (h place node hnode)

section

variable (rules : Rules Name Target) {fs fs' : Files Name Content Target}

theorem kept_add {place : List Name} {name : Name} (new : Node Content Target) (hdir : fs.node place = some .dir) :
    Kept fs (fs.add place name new hdir) := by
  intro p node hnode
  exact (if_neg fun h => by simp [hnode] at h).trans hnode

theorem kept_make (path : List Name) (new : Node Content Target) : Kept fs (make rules fs path new) := by
  unfold make
  rcases path.getLast? with _ | name
  · exact Kept.refl fs
  · rcases directory rules fs path with _ | place
    · exact Kept.refl fs
    · simp only
      split_ifs
      · exact kept_add new _
      · exact Kept.refl fs

theorem kept_makeDirectories (path rest : List Name) : Kept fs (makeDirectories rules fs path rest) := by
  induction rest generalizing fs path with
  | nil => exact Kept.refl fs
  | cons name rest ih => exact (kept_make rules _ _).trans (ih _)

/-! ## Following a path -/

variable {rules}

theorem advance_ordinary {place path : List Name} {name : Name} (hname : rules.Ordinary name) :
    advance rules fs place (name :: path) =
      match fs.node (place ++ [name]) with
      | none => .nowhere
      | some .dir => advance rules fs (place ++ [name]) path
      | some (.file _) => if path = [] then .arrived (place ++ [name]) else .nowhere
      | some (.link target) => .link place target path := by
  rw [advance, if_neg hname.1, if_neg hname.2]

/-- The names of a directory itself and of its parent lead on from somewhere, whatever stands there. -/
theorem exists_advance_eq {name : Name} (hname : ¬ rules.Ordinary name) (place : List Name) : ∃ place',
    ∀ (fs : Files Name Content Target) (path : List Name), advance rules fs place (name :: path) = advance rules fs place' path := by
  by_cases hhere : name = rules.here
  · exact ⟨place, fun fs path => by rw [advance, if_pos hhere]⟩
  · have hparent : name = rules.parent := by_contra fun hother => hname ⟨hhere, hother⟩
    exact ⟨place.dropLast, fun fs path => by rw [advance, if_neg hhere, if_pos hparent]⟩

/-- What a name does to a path that is followed: it leads on from another place, whatever is behind it, or it is the file that the
path ends at, or a link. -/
theorem advance_cons_cases {place path : List Name} {name : Name} (hstop : advance rules fs place (name :: path) ≠ .nowhere) :
    (∃ place', ∀ path', advance rules fs place (name :: path') = advance rules fs place' path') ∨
      (∃ content, fs.node (place ++ [name]) = some (.file content) ∧ path = [] ∧
        advance rules fs place [name] = .arrived (place ++ [name])) ∨
      ∃ target, ∀ path', advance rules fs place (name :: path') = .link place target path' := by
  by_cases hname : rules.Ordinary name
  · rw [advance_ordinary hname] at hstop
    rcases hnode : fs.node (place ++ [name]) with _ | node
    · simp [hnode] at hstop
    · rw [hnode] at hstop
      cases node with
      | dir => exact Or.inl ⟨place ++ [name], fun path' => by rw [advance_ordinary hname, hnode]⟩
      | file content =>
        have hend : path = [] := by simpa using hstop
        exact Or.inr (Or.inl ⟨content, rfl, hend, by rw [advance_ordinary hname, hnode]; exact if_pos rfl⟩)
      | link target => exact Or.inr (Or.inr ⟨target, fun path' => by rw [advance_ordinary hname, hnode]⟩)
  · obtain ⟨place', hplace⟩ := exists_advance_eq hname place
    exact Or.inl ⟨place', hplace fs⟩

theorem walk_of_arrived {n : Nat} {place path dir : List Name} (h : advance rules fs place path = .arrived dir) :
    walk rules fs n place path = some (dir, n) := by
  cases n <;> rw [walk, h]

theorem walk_of_nowhere {n : Nat} {place path : List Name} (h : advance rules fs place path = .nowhere) :
    walk rules fs n place path = none := by
  cases n <;> rw [walk, h]

theorem walk_of_link {n : Nat} {place path dir rest : List Name} {target : Target}
    (h : advance rules fs place path = .link dir target rest) : walk rules fs (n + 1) place path =
      walk rules fs n (if (rules.leads target).1 then [] else dir) ((rules.leads target).2 ++ rest) := by
  rw [walk, h]

/-- A path that leads somewhere leads there without a link, or along its first link. -/
theorem walk_cases {n : Nat} {place path : List Name} {r : List Name × Nat} (h : walk rules fs n place path = some r) :
    (∃ dir, advance rules fs place path = .arrived dir ∧ r = (dir, n)) ∨
      ∃ dir target rest n', n = n' + 1 ∧ advance rules fs place path = .link dir target rest ∧
        walk rules fs n' (if (rules.leads target).1 then [] else dir) ((rules.leads target).2 ++ rest) = some r := by
  cases hstop : advance rules fs place path with
  | arrived dir =>
    rw [walk_of_arrived hstop] at h
    exact Or.inl ⟨dir, rfl, (Option.some.inj h).symm⟩
  | nowhere =>
    rw [walk_of_nowhere hstop] at h
    exact absurd h (Option.some_ne_none r).symm
  | link dir target rest =>
    cases n with
    | zero =>
      rw [walk, hstop] at h
      exact absurd h (Option.some_ne_none r).symm
    | succ n' =>
      rw [walk_of_link hstop] at h
      exact Or.inr ⟨dir, target, rest, n', rfl, rfl, h⟩

/-- A path that was followed is followed as before when nothing was taken away. -/
theorem advance_of_kept (h : Kept fs fs') (place path : List Name) (hstop : advance rules fs place path ≠ .nowhere) :
    advance rules fs' place path = advance rules fs place path := by
  induction path generalizing place with
  | nil => rfl
  | cons name path ih =>
    by_cases hname : rules.Ordinary name
    case neg =>
      obtain ⟨place', hplace⟩ := exists_advance_eq hname place
      rw [hplace] at hstop ⊢
      rw [hplace]
      exact ih _ hstop
    rw [advance_ordinary hname] at hstop ⊢
    rw [advance_ordinary hname]
    cases hnode : fs.node (place ++ [name]) with
    | none => simp [hnode] at hstop
    | some node =>
      rw [hnode] at hstop
      rw [h _ _ hnode]
      cases node with
      | dir => exact ih _ hstop
      | file content => rfl
      | link target => rfl

theorem walk_of_kept (h : Kept fs fs') {n : Nat} {place path : List Name} {r : List Name × Nat}
    (hwalk : walk rules fs n place path = some r) : walk rules fs' n place path = some r := by
  induction n generalizing place path with
  | zero =>
    rcases walk_cases hwalk with ⟨dir, hstop, rfl⟩ | ⟨_, _, _, _, hn, _⟩
    · exact walk_of_arrived ((advance_of_kept h place path (by simp [hstop])).trans hstop)
    · exact absurd hn (Nat.succ_ne_zero _).symm
  | succ n ih =>
    rcases walk_cases hwalk with ⟨dir, hstop, rfl⟩ | ⟨dir, target, rest, n', hn, hstop, hrest⟩
    · exact walk_of_arrived ((advance_of_kept h place path (by simp [hstop])).trans hstop)
    · obtain rfl : n = n' := Nat.succ.inj hn
      rw [walk_of_link ((advance_of_kept h place path (by simp [hstop])).trans hstop)]
      exact ih hrest

/-- A path goes on behind a directory from there. -/
theorem advance_append {place path dir : List Name} (hstop : advance rules fs place path = .arrived dir)
    (hdir : fs.node dir = some .dir) (rest : List Name) :
    advance rules fs place (path ++ rest) = advance rules fs dir rest := by
  induction path generalizing place with
  | nil =>
    cases hstop
    rfl
  | cons name path ih =>
    rw [List.cons_append]
    rcases advance_cons_cases (show advance rules fs place (name :: path) ≠ .nowhere by simp [hstop]) with
      ⟨place', hon⟩ | ⟨content, hnode, rfl, hfile⟩ | ⟨target, hlink⟩
    · rw [hon] at hstop ⊢
      exact ih hstop
    · -- a file is no directory
      rw [hfile] at hstop
      cases hstop
      rw [hnode] at hdir
      cases hdir
    · rw [hlink] at hstop
      cases hstop

/-- The part of a path behind a link is followed after the link. -/
theorem advance_append_link {place path dir more : List Name} {target : Target}
    (hstop : advance rules fs place path = .link dir target more) (rest : List Name) :
    advance rules fs place (path ++ rest) = .link dir target (more ++ rest) := by
  induction path generalizing place with
  | nil => cases hstop
  | cons name path ih =>
    rw [List.cons_append]
    rcases advance_cons_cases (show advance rules fs place (name :: path) ≠ .nowhere by simp [hstop]) with
      ⟨place', hon⟩ | ⟨content, hnode, rfl, hfile⟩ | ⟨target', hlink⟩
    · rw [hon] at hstop ⊢
      exact ih hstop
    · rw [hfile] at hstop
      cases hstop
    · rw [hlink] at hstop ⊢
      cases hstop
      rfl

/-- A path leads behind a directory where it leads from there. -/
theorem walk_append {n k : Nat} {place path dir : List Name} (hwalk : walk rules fs n place path = some (dir, k))
    (hdir : fs.node dir = some .dir) (rest : List Name) :
    walk rules fs n place (path ++ rest) = walk rules fs k dir rest := by
  induction n generalizing place path with
  | zero =>
    rcases walk_cases hwalk with ⟨dir', hstop, heq⟩ | ⟨_, _, _, _, hn, _⟩
    · cases heq
      rw [walk, walk, advance_append hstop hdir]
    · exact absurd hn (Nat.succ_ne_zero _).symm
  | succ n ih =>
    rcases walk_cases hwalk with ⟨dir', hstop, heq⟩ | ⟨dir', target, more, n', hn, hstop, hrest⟩
    · cases heq
      rw [walk, walk, advance_append hstop hdir]
    · obtain rfl : n = n' := Nat.succ.inj hn
      rw [walk_of_link (advance_append_link hstop rest), ← List.append_assoc]
      exact ih hrest

/-- On the way of a path that leads somewhere there is something under each of its names. -/
theorem advance_prefix {place path rest : List Name} {name : Name} (hname : rules.Ordinary name)
    (hstop : advance rules fs place (path ++ name :: rest) ≠ .nowhere) :
    (∃ dir, advance rules fs place path = .arrived dir ∧ fs.node (dir ++ [name]) ≠ none) ∨
      ∃ dir target more, advance rules fs place path = .link dir target more := by
  induction path generalizing place with
  | nil =>
    refine Or.inl ⟨place, rfl, fun hnone => hstop ?_⟩
    rw [List.nil_append, advance_ordinary hname, hnone]
  | cons first path ih =>
    rw [List.cons_append] at hstop
    rcases advance_cons_cases hstop with ⟨place', hon⟩ | ⟨content, _, hend, _⟩ | ⟨target, hlink⟩
    · rw [hon] at hstop ⊢
      exact ih hstop
    · simp at hend
    · exact Or.inr ⟨place, target, path, hlink path⟩

theorem walk_prefix {n : Nat} {place path rest : List Name} {name : Name} (hname : rules.Ordinary name)
    (hwalk : walk rules fs n place (path ++ name :: rest) ≠ none) :
    ∃ dir k, walk rules fs n place path = some (dir, k) ∧ fs.node (dir ++ [name]) ≠ none := by
  induction n generalizing place path with
  | zero =>
    obtain ⟨r, hr⟩ := Option.ne_none_iff_exists'.mp hwalk
    rcases walk_cases hr with ⟨dir, hstop, -⟩ | ⟨_, _, _, _, hn, _⟩
    · rcases advance_prefix hname (by rw [hstop]; simp) with ⟨dir', hdir', hnode⟩ | ⟨dir', target, more, hlink⟩
      · exact ⟨dir', 0, walk_of_arrived hdir', hnode⟩
      · rw [advance_append_link hlink] at hstop
        cases hstop
    · exact absurd hn (Nat.succ_ne_zero _).symm
  | succ n ih =>
    obtain ⟨r, hr⟩ := Option.ne_none_iff_exists'.mp hwalk
    have hstop : advance rules fs place (path ++ name :: rest) ≠ .nowhere := fun h => hwalk (walk_of_nowhere h)
    rcases advance_prefix hname hstop with ⟨dir, hdir, hnode⟩ | ⟨dir, target, more, hlink⟩
    · exact ⟨dir, n + 1, walk_of_arrived hdir, hnode⟩
    · rw [walk_of_link (advance_append_link hlink _), ← List.append_assoc] at hwalk
      rw [walk_of_link hlink]
      exact ih hwalk

/-- On the way of a path that leads somewhere everything is found. -/
theorem lookup_of_part {path part : List Name} (hnames : ∀ name ∈ path, rules.Ordinary name)
    (hwalk : walk rules fs rules.maxLinks [] path ≠ none) (hpart : part <+: path) : lookup rules fs part ≠ none := by
  obtain ⟨rest, rfl⟩ := hpart
  unfold lookup directory
  induction part using List.reverseRecOn with
  | nil => exact fs.stands fs.root
  | append_singleton part name _ =>
    rw [List.append_assoc, List.singleton_append] at hwalk
    obtain ⟨dir, k, hdir, hnode⟩ := walk_prefix (hnames name (by simp)) hwalk
    simp only [List.getLast?_concat, List.dropLast_concat, hdir, Option.map_some, Option.bind_some]
    exact hnode

/-- What a path leads to it still leads to when nothing was taken away. -/
theorem lookup_of_kept (h : Kept fs fs') {path : List Name} {node : Node Content Target}
    (hnode : lookup rules fs path = some node) : lookup rules fs' path = some node := by
  unfold lookup at hnode ⊢
  cases hlast : path.getLast? with
  | none =>
    rw [hlast] at hnode
    exact h _ _ hnode
  | some name =>
    rw [hlast] at hnode
    obtain ⟨place, hplace, hthere⟩ := Option.bind_eq_some_iff.mp hnode
    obtain ⟨r, hwalk, rfl⟩ := Option.map_eq_some_iff.mp hplace
    simp only [directory, walk_of_kept h hwalk, Option.map_some, Option.bind_some]
    exact h _ _ hthere

/-- Nothing is made where there is something. -/
theorem make_of_node {path : List Name} {name : Name} {dir : List Name} {k : Nat}
    (hwalk : walk rules fs rules.maxLinks [] path = some (dir, k)) (hnode : fs.node (dir ++ [name]) ≠ none)
    (new : Node Content Target) : make rules fs (path ++ [name]) new = fs := by
  unfold make directory
  rw [List.getLast?_concat, List.dropLast_concat, hwalk]
  simp only [Option.map_some]
  split_ifs
  · ext1
    funext p
    refine if_neg fun h => hnode ?_
    rw [← h.1]
    exact Option.isNone_iff_eq_none.mp h.2
  · rfl

/-- No directory is missing on the way of a path that leads somewhere. -/
theorem makeDirectories_of_walk {path rest : List Name} (hwalk : walk rules fs rules.maxLinks [] (path ++ rest) ≠ none)
    (hnames : ∀ name ∈ rest, rules.Ordinary name) : makeDirectories rules fs path rest = fs := by
  induction rest generalizing path with
  | nil => rfl
  | cons name rest ih =>
    obtain ⟨hname, hnames⟩ := List.forall_mem_cons.mp hnames
    obtain ⟨dir, k, hdir, hnode⟩ := walk_prefix hname hwalk
    rw [makeDirectories, make_of_node hdir hnode]
    exact ih (by rwa [List.append_assoc]) hnames

theorem makeDirectories_append (path first rest : List Name) : makeDirectories rules fs path (first ++ rest) =
    makeDirectories rules (makeDirectories rules fs path first) (path ++ first) rest := by
  induction first generalizing fs path with
  | nil => simp [makeDirectories]
  | cons name first ih =>
    rw [List.cons_append, makeDirectories, ih, makeDirectories, List.append_assoc]
    rfl

/-! ## Below a directory -/

/-- A path leads to a directory. -/
structure LeadsTo (rules : Rules Name Target) (fs : Files Name Content Target) (path place : List Name) (k : Nat) : Prop where
  walked : walk rules fs rules.maxLinks [] path = some (place, k)
  dir : fs.node place = some .dir

theorem LeadsTo.of_kept {path place : List Name} {k : Nat} (h : LeadsTo rules fs path place k) (hkept : Kept fs fs') :
    LeadsTo rules fs' path place k :=
  ⟨walk_of_kept hkept h.walked, hkept _ _ h.dir⟩

/-- What is made where nothing was found is found exactly when its directory is there. -/
theorem lookup_make_iff {path : List Name} (hnone : lookup rules fs path = none) (new : Node Content Target) :
    lookup rules (make rules fs path new) path = some new ↔ ∃ place k, LeadsTo rules fs path.dropLast place k := by
  rcases hlast : path.getLast? with _ | name
  · -- the root is there
    unfold lookup at hnone
    rw [hlast] at hnone
    exact absurd hnone (fs.stands fs.root)
  constructor
  · intro hthere
    by_contra hmissing
    have hsame : make rules fs path new = fs := by
      unfold make
      rw [hlast]
      rcases hdirectory : directory rules fs path with _ | place
      · rfl
      · obtain ⟨r, hwalk, rfl⟩ := Option.map_eq_some_iff.mp hdirectory
        exact dif_neg fun hdir => hmissing ⟨r.1, r.2, hwalk, isDir_iff.mp hdir⟩
    rw [hsame, hnone] at hthere
    exact absurd hthere (Option.some_ne_none new).symm
  · rintro ⟨place, k, hleads⟩
    have hdirectory : directory rules fs path = some place := by
      rw [directory, hleads.walked, Option.map_some]
    have hafter : directory rules (make rules fs path new) path = some place := by
      rw [directory, (hleads.of_kept (kept_make rules path new)).walked, Option.map_some]
    have hplace : lookup rules fs path = fs.node (place ++ [name]) := by
      rw [lookup, hlast, hdirectory]
      rfl
    have hfound : lookup rules (make rules fs path new) path = (make rules fs path new).node (place ++ [name]) := by
      rw [lookup, hlast, hafter]
      rfl
    rw [hfound]
    unfold make
    rw [hlast, hdirectory]
    simp only
    rw [dif_pos (isDir_iff.mpr hleads.dir)]
    exact if_pos ⟨rfl, by rw [← hplace, hnone]; rfl⟩

/-- There is no link on the way along a path from a place. -/
def NoLink (fs : Files Name Content Target) (place path : List Name) : Prop :=
  ∀ part target, part <+: path → fs.node (place ++ part) ≠ some (.link target)

omit [DecidableEq Name] in
/-- On the way to a directory there is none. -/
theorem noLink_of_dir {place path : List Name} (hdir : fs.node (place ++ path) = some .dir) : NoLink fs place path := by
  intro part target hpart hlink
  have hpartDir : fs.node (place ++ part) = some .dir := by
    rcases fs.dir_on_way hpart (fs.stands hdir) with rfl | hway
    · exact hdir
    · exact hway
  rw [hlink] at hpartDir
  cases hpartDir

/-- Without a link a path leads to the place with its names. -/
theorem advance_below {place path : List Name} (hdir : fs.node place = some .dir) (hnames : ∀ name ∈ path, rules.Ordinary name)
    (hlinks : NoLink fs place path) : advance rules fs place path =
      if (fs.node (place ++ path)).isSome then .arrived (place ++ path) else .nowhere := by
  induction path generalizing place with
  | nil =>
    rw [List.append_nil, hdir]
    rfl
  | cons name path ih =>
    obtain ⟨hname, hnames⟩ := List.forall_mem_cons.mp hnames
    have hsplit : place ++ name :: path = place ++ [name] ++ path := List.append_cons place name path
    have hfirst : ∀ target, fs.node (place ++ [name]) ≠ some (.link target) := fun target =>
      hlinks [name] target (List.prefix_append [name] path)
    have hnothing : fs.node (place ++ [name]) ≠ some .dir → path ≠ [] → fs.node (place ++ [name] ++ path) = none :=
      fs.node_below
    rw [advance_ordinary hname, hsplit]
    rcases hnode : fs.node (place ++ [name]) with _ | node
    · have hnone : fs.node (place ++ [name] ++ path) = none := by
        rcases eq_or_ne path [] with rfl | hne
        · rwa [List.append_nil]
        · exact hnothing (by simp [hnode]) hne
      rw [hnone]
      rfl
    · cases node with
      | dir =>
        refine ih hnode hnames fun part target hpart => ?_
        have h := hlinks (name :: part) target ((List.prefix_cons_inj name).mpr hpart)
        rwa [List.append_cons] at h
      | file content =>
        rcases eq_or_ne path [] with rfl | hne
        · rw [List.append_nil, hnode]
          rfl
        · rw [hnothing (by simp [hnode]) hne]
          exact if_neg hne
      | link target => exact absurd hnode (hfirst target)

section

variable {path place : List Name} {k : Nat} (h : LeadsTo rules fs path place k)

include h

theorem LeadsTo.walk_below {rest : List Name} (hnames : ∀ name ∈ rest, rules.Ordinary name) (hlinks : NoLink fs place rest) :
    walk rules fs rules.maxLinks [] (path ++ rest) = (fs.node (place ++ rest)).map fun _ => (place ++ rest, k) := by
  have hstop := advance_below h.dir hnames hlinks
  rw [walk_append h.walked h.dir]
  cases hnode : fs.node (place ++ rest) with
  | none =>
    rw [hnode] at hstop
    exact walk_of_nowhere hstop
  | some node =>
    rw [hnode] at hstop
    exact walk_of_arrived hstop

/-- A path behind a directory leads to the place with its names. -/
theorem LeadsTo.lookup_below {rest : List Name} {name : Name} (hnames : ∀ name ∈ rest, rules.Ordinary name)
    (hlinks : NoLink fs place rest) : lookup rules fs (path ++ (rest ++ [name])) = fs.node (place ++ (rest ++ [name])) := by
  unfold lookup directory
  rw [← List.append_assoc, List.getLast?_concat, List.dropLast_concat, h.walk_below hnames hlinks, ← List.append_assoc]
  cases hnode : fs.node (place ++ rest) with
  | none => exact (fs.node_below (by simp [hnode]) (List.cons_ne_nil name [])).symm
  | some node => rfl

/-- Something is made in a directory, and everything else is as before. -/
theorem LeadsTo.node_make {rest : List Name} {name : Name} (hnames : ∀ name ∈ rest, rules.Ordinary name)
    (hlinks : NoLink fs place rest) (hdir : fs.node (place ++ rest) = some .dir)
    (hnone : fs.node (place ++ (rest ++ [name])) = none) (new : Node Content Target) (p : List Name) :
    (make rules fs (path ++ (rest ++ [name])) new).node p = if p = place ++ (rest ++ [name]) then some new else fs.node p := by
  unfold make directory
  rw [← List.append_assoc, List.getLast?_concat, List.dropLast_concat, h.walk_below hnames hlinks, hdir]
  simp only [Option.map_some]
  rw [dif_pos (isDir_iff.mpr hdir), ← List.append_assoc]
  by_cases hp : p = place ++ rest ++ [name]
  · rw [if_pos hp, hp]
    rw [← List.append_assoc] at hnone
    exact if_pos ⟨rfl, by rw [hnone]; rfl⟩
  · rw [if_neg hp]
    exact if_neg fun h => hp h.1

/-- Nothing is made where there is no directory or the name is taken. -/
theorem LeadsTo.make_eq {rest : List Name} {name : Name} (hnames : ∀ name ∈ rest, rules.Ordinary name)
    (hlinks : NoLink fs place rest)
    (htaken : fs.node (place ++ rest) ≠ some .dir ∨ fs.node (place ++ (rest ++ [name])) ≠ none) (new : Node Content Target) :
    make rules fs (path ++ (rest ++ [name])) new = fs := by
  have hwalk := h.walk_below hnames hlinks
  rw [← List.append_assoc]
  rcases htaken with hdir | hnode
  · unfold make directory
    rw [List.getLast?_concat, List.dropLast_concat, hwalk]
    rcases fs.node (place ++ rest) with _ | node
    · rfl
    · exact dif_neg fun hd => hdir (isDir_iff.mp hd)
  · have hdir := fs.inDir _ name (by rwa [← List.append_assoc] at hnode)
    rw [hdir] at hwalk
    exact make_of_node hwalk (by rwa [← List.append_assoc] at hnode) new

end

/-- When nothing but directories stands on a path behind a directory, the missing ones are made, and everything else is as
before. -/
theorem LeadsTo.node_makeDirectories {path place part rest : List Name} {k : Nat} (h : LeadsTo rules fs path place k)
    (hnames : ∀ name ∈ part ++ rest, rules.Ordinary name) (hdir : fs.node (place ++ part) = some .dir)
    (hfree : ∀ more, more <+: rest →
      fs.node (place ++ (part ++ more)) = none ∨ fs.node (place ++ (part ++ more)) = some .dir) :
    (∀ more, more <+: rest → (makeDirectories rules fs (path ++ part) rest).node (place ++ (part ++ more)) = some .dir) ∧
      ∀ p, (∀ more, more <+: rest → p ≠ place ++ (part ++ more)) →
        (makeDirectories rules fs (path ++ part) rest).node p = fs.node p := by
  induction rest generalizing fs part with
  | nil =>
    refine ⟨fun more hmore => ?_, fun p _ => rfl⟩
    rw [List.prefix_nil.mp hmore, List.append_nil]
    exact hdir
  | cons name rest ih =>
    have hpart : ∀ x ∈ part, rules.Ordinary x := fun x hx => hnames x (List.mem_append_left _ hx)
    have hmade : ∀ p, (make rules fs (path ++ (part ++ [name])) .dir).node p =
        if p = place ++ (part ++ [name]) then some .dir else fs.node p := fun p => by
      rcases hfree [name] (List.prefix_append [name] rest) with hnone | hthere
      · exact h.node_make hpart (noLink_of_dir hdir) hdir hnone .dir p
      · rw [h.make_eq hpart (noLink_of_dir hdir) (Or.inr (fs.stands hthere))]
        split_ifs with hp
        · rw [hp, hthere]
        · rfl
    have hnext : ∀ x ∈ part ++ [name] ++ rest, rules.Ordinary x := by rwa [← List.append_cons]
    have hrest := ih (h.of_kept (kept_make rules _ _)) hnext ((hmade _).trans (if_pos rfl)) fun more hmore => by
        rw [hmade]
        split_ifs
        · exact Or.inr rfl
        · have hnext := hfree (name :: more) ((List.prefix_cons_inj name).mpr hmore)
          rwa [List.append_cons part name more] at hnext
    rw [makeDirectories, List.append_assoc]
    refine ⟨fun more hmore => ?_, fun p hp => ?_⟩
    · rcases more with _ | ⟨first, more⟩
      · rw [List.append_nil]
        exact kept_makeDirectories rules _ _ _ _ (kept_make rules _ _ _ _ hdir)
      · obtain ⟨rfl, htail⟩ := List.cons_prefix_cons.mp hmore
        rw [List.append_cons part first more]
        exact hrest.1 more htail
    · have hother : ∀ more, more <+: rest → p ≠ place ++ (part ++ [name] ++ more) := fun more hmore heq =>
        hp (name :: more) ((List.prefix_cons_inj name).mpr hmore) (by rw [heq, List.append_cons part name more])
      rw [hrest.2 p hother, hmade, if_neg fun heq => hother [] List.nil_prefix (by rw [heq, List.append_nil])]

/-- Behind a file no directories are made. -/
theorem LeadsTo.makeDirectories_eq {path place part rest above : List Name} {k : Nat} (h : LeadsTo rules fs path place k)
    (hnames : ∀ name ∈ part ++ rest, rules.Ordinary name) (hlinks : NoLink fs place (part ++ rest))
    (habove : above <+: part ++ rest) {content : Content} (hfile : fs.node (place ++ above) = some (.file content)) :
    makeDirectories rules fs (path ++ part) rest = fs := by
  induction rest generalizing part with
  | nil => rfl
  | cons name rest ih =>
    rw [List.append_cons] at hnames hlinks habove
    have hpart : ∀ x ∈ part, rules.Ordinary x := fun x hx => hnames x (by simp [hx])
    have htaken : fs.node (place ++ part) ≠ some .dir ∨ fs.node (place ++ (part ++ [name])) ≠ none := by
      rcases List.prefix_or_prefix_of_prefix habove (List.prefix_append (part ++ [name]) rest) with hshort | hlong
      · rcases List.prefix_concat_iff.mp hshort with rfl | hshort
        · exact Or.inr (fs.stands hfile)
        · exact Or.inl (fs.not_dir_of_file hshort hfile)
      · refine Or.inr ?_
        rcases fs.dir_on_way hlong (fs.stands hfile) with heq | hway
        · rw [heq]
          exact fs.stands hfile
        · exact fs.stands hway
    rw [makeDirectories, List.append_assoc, h.make_eq hpart (fun more target hmore => hlinks more target
      (hmore.trans (by simp))) htaken]
    exact ih hnames hlinks habove

end

end FileSystem
