import Mathlib.Data.List.DropRight
import Sauvegarde.Lib.Paths
import Sauvegarde.Extern.Glib

/-!
# Names and types of files

The types of files, the name that GLib builds from several elements, and the file that a name stands for: its `.` and `..` are
resolved in the text, without a look at the files.
-/

namespace Sauvegarde

/-- `G_FILE_TYPE_REGULAR`. -/
def G_FILE_TYPE_REGULAR : UInt8 := 1

/-- `G_FILE_TYPE_DIRECTORY`. -/
def G_FILE_TYPE_DIRECTORY : UInt8 := 2

/-- `G_FILE_TYPE_SYMBOLIC_LINK`. -/
def G_FILE_TYPE_SYMBOLIC_LINK : UInt8 := 3

/-- An element without the separators at its ends. -/
def trimSeparators (element : Bytes) : Bytes := (element.dropWhile (· = 47)).rdropWhile (· = 47)

/-- `g_build_filename` of any number of elements: of the separators at their ends, those in front of the first element and those
behind the last stay. Elements without a character are left out. -/
def gBuildFilenameOf (elements : List Bytes) : Bytes :=
  match elements.filter (· ≠ []) with
  | [] => []
  | first :: rest =>
    if rest = [] ∧ trimSeparators first = [] then first
    else
      first.takeWhile (· = 47) ++ [47].intercalate (((first :: rest).map trimSeparators).filter (· ≠ [])) ++
        ((first :: rest).getLast (List.cons_ne_nil first rest)).rtakeWhile (· = 47)

/-- `g_path_get_dirname`. -/
def gPathGetDirname (fileName : Bytes) : Bytes :=
  if (47 : UInt8) ∈ fileName then
    let front := (fileName.rdropWhile (· ≠ 47)).rdropWhile (· = 47)
    if front = [] then [47] else front
  else str "."

/-- `g_path_get_basename`. -/
def gPathGetBasename (fileName : Bytes) : Bytes :=
  if fileName = [] then str "."
  else if fileName.rdropWhile (· = 47) = [] then [47]
  else (fileName.rdropWhile (· = 47)).rtakeWhile (· ≠ 47)

/-- A file or a directory, by the names that lead to it from the root. -/
abbrev Location := List Bytes

/-- The file that `g_file_new_for_path` stands for, when the program runs in a directory. -/
def gFileNewForPath (currentDir : Location) (path : Bytes) : Location :=
  Paths.resolve (str ".") (str "..") (if path.head? = some 47 then [] else currentDir) (Paths.components 47 path)

/-! ## Components -/

/-- Without the separators at its ends an element has the same components. -/
theorem components_trimSeparators (element : Bytes) :
    Paths.components 47 (trimSeparators element) = Paths.components 47 element := by
  have hfront : ∀ c ∈ element.takeWhile (· = 47), c = 47 := fun c hc => by simpa using List.mem_takeWhile_imp hc
  have hback : ∀ c ∈ (element.dropWhile (· = 47)).rtakeWhile (· = 47), c = 47 := fun c hc => by
    simpa using List.mem_rtakeWhile_imp hc
  have h := Paths.components_append_right hback (trimSeparators element)
  unfold trimSeparators at h ⊢
  rw [List.rdropWhile_append_rtakeWhile] at h
  rw [← h, ← Paths.components_append_left hfront (element.dropWhile (· = 47)), List.takeWhile_append_dropWhile]

/-- The components of the elements that are put together with a separator between two. -/
theorem components_intercalate (elements : List Bytes) :
    Paths.components 47 ([47].intercalate elements) = elements.flatMap (Paths.components 47) := by
  induction elements with
  | nil => rfl
  | cons element elements ih =>
    rcases elements with _ | ⟨second, elements⟩
    · simp [List.intercalate]
    · have hsplit : [47].intercalate (element :: second :: elements) = element ++ 47 :: [47].intercalate (second :: elements) := by
        simp [List.intercalate]
      rw [hsplit, Paths.components_append_cons, ih]
      exact List.flatMap_cons.symm

/-- Elements without a character have no component. -/
theorem flatMap_components_filter (elements : List Bytes) :
    (elements.filter (· ≠ [])).flatMap (Paths.components 47) = elements.flatMap (Paths.components 47) := by
  induction elements with
  | nil => rfl
  | cons element elements ih =>
    by_cases hempty : element = []
    · rw [List.filter_cons_of_neg (by simpa using hempty), ih, List.flatMap_cons, hempty, Paths.components_nil, List.nil_append]
    · rw [List.filter_cons_of_pos (by simpa using hempty), List.flatMap_cons, ih, List.flatMap_cons]

/-- The components of a name that is built are those of the elements. -/
theorem components_gBuildFilenameOf (elements : List Bytes) :
    Paths.components 47 (gBuildFilenameOf elements) = elements.flatMap (Paths.components 47) := by
  rw [← flatMap_components_filter elements]
  unfold gBuildFilenameOf
  rcases elements.filter (· ≠ []) with _ | ⟨first, rest⟩
  · exact Paths.components_nil 47
  · simp only
    split_ifs with hsingle
    · rw [hsingle.1, List.flatMap_singleton]
    · have hfront : ∀ c ∈ first.takeWhile (· = 47), c = 47 := fun c hc => by simpa using List.mem_takeWhile_imp hc
      have hback : ∀ c ∈ ((first :: rest).getLast (List.cons_ne_nil first rest)).rtakeWhile (· = 47), c = 47 := fun c hc => by
        simpa using List.mem_rtakeWhile_imp hc
      rw [Paths.components_append_right hback, Paths.components_append_left hfront, components_intercalate,
        flatMap_components_filter, List.flatMap_map]
      simp only [components_trimSeparators]

/-! ## Names below a directory -/

/-- The text of a path from the root, or from a directory when it stands behind the name of that. -/
def pathText (path : Location) : Bytes := path.flatMap fun name => 47 :: name

/-- A name that stands for a file in a directory. -/
structure FileName (name : Bytes) : Prop where
  nonempty : name ≠ []
  noSeparator : (47 : UInt8) ∉ name
  notHere : name ≠ str "."
  notParent : name ≠ str ".."

instance : DecidablePred FileName := fun name =>
  decidable_of_iff (name ≠ [] ∧ (47 : UInt8) ∉ name ∧ name ≠ str "." ∧ name ≠ str "..")
    ⟨fun h => ⟨h.1, h.2.1, h.2.2.1, h.2.2.2⟩, fun h => ⟨h.nonempty, h.noSeparator, h.notHere, h.notParent⟩⟩

theorem components_append_pathText (front : Bytes) {path : Location} (h : ∀ name ∈ path, FileName name) :
    Paths.components 47 (front ++ pathText path) = Paths.components 47 front ++ path := by
  induction path generalizing front with
  | nil => simp [pathText]
  | cons name path ih =>
    obtain ⟨hname, hpath⟩ := List.forall_mem_cons.mp h
    have hsplit : front ++ pathText (name :: path) = front ++ 47 :: name ++ pathText path := by simp [pathText]
    rw [hsplit, ih _ hpath, Paths.components_append_cons, Paths.components_name hname.noSeparator hname.nonempty]
    simp

/-- Names of files lead down from where they are looked for. -/
theorem resolve_append {base path rest : Location} (h : ∀ name ∈ rest, FileName name) :
    Paths.resolve (str ".") (str "..") base (path ++ rest) = Paths.resolve (str ".") (str "..") base path ++ rest := by
  unfold Paths.resolve
  rw [List.foldl_append]
  generalize path.foldl (Paths.step (str ".") (str "..")) base = dir
  induction rest generalizing dir with
  | nil => simp
  | cons name rest ih =>
    obtain ⟨hname, hrest⟩ := List.forall_mem_cons.mp h
    rw [List.foldl_cons, ih hrest, Paths.step, if_neg hname.notHere, if_neg hname.notParent]
    simp

/-- The beginning of a text begins as the text does. -/
theorem head?_of_begins {part text : Bytes} (h : part <+: text) (hne : part ≠ []) : text.head? = part.head? := by
  obtain ⟨rest, rfl⟩ := h
  obtain ⟨c, part, rfl⟩ := List.exists_cons_of_ne_nil hne
  rfl

/-- The text of a path does not end with a separator. -/
theorem getLast_pathText {path : Location} (h : ∀ name ∈ path, FileName name) (hne : pathText path ≠ []) :
    (pathText path).getLast hne ≠ 47 := by
  rcases List.eq_nil_or_concat path with rfl | ⟨init, name, rfl⟩
  · exact absurd rfl hne
  · have hname := h name (by simp)
    have hsplit : pathText (init.concat name) = (pathText init ++ [47]) ++ name := by simp [pathText]
    simp only [hsplit]
    rw [List.getLast_append_of_ne_nil _ hname.nonempty]
    exact fun heq => hname.noSeparator (heq ▸ List.getLast_mem _)

/-- Of the text of a path only the first separator is trimmed. -/
theorem trimSeparators_pathText {path : Location} (hpath : path ≠ []) (h : ∀ name ∈ path, FileName name) :
    ∃ text, text ≠ [] ∧ pathText path = 47 :: text ∧ trimSeparators (pathText path) = text ∧
      (pathText path).rtakeWhile (· = 47) = [] := by
  obtain ⟨name, rest, rfl⟩ := List.exists_cons_of_ne_nil hpath
  have hname := (List.forall_mem_cons.mp h).1
  have htext : pathText (name :: rest) = 47 :: (name ++ pathText rest) := by simp [pathText]
  have hlast := getLast_pathText h (by rw [htext]; exact List.cons_ne_nil _ _)
  obtain ⟨c, name', rfl⟩ := List.exists_cons_of_ne_nil hname.nonempty
  have hc : c ≠ 47 := fun hc => hname.noSeparator (by rw [hc]; exact List.mem_cons_self)
  have htrim : trimSeparators (pathText ((c :: name') :: rest)) = c :: name' ++ pathText rest := by
    unfold trimSeparators
    rw [htext, List.dropWhile_cons_of_pos (by simp), List.cons_append, List.dropWhile_cons_of_neg (by simpa using hc),
      List.rdropWhile_eq_self_iff]
    intro hne
    simp only [htext] at hlast
    simpa using hlast
  exact ⟨_, List.cons_ne_nil _ _, htext, htrim, List.rtakeWhile_eq_nil_iff.mpr fun hne => by simpa using hlast⟩

/-- Where everything is trimmed there are only separators. -/
theorem eq_of_mem_of_trimSeparators_eq_nil {element : Bytes} (h : trimSeparators element = []) : ∀ c ∈ element, c = 47 := by
  have hall := List.takeWhile_append_dropWhile (p := fun c : UInt8 => decide (c = 47)) (l := element)
  intro c hc
  rw [← hall] at hc
  rcases List.mem_append.mp hc with hc | hc
  · simpa using List.mem_takeWhile_imp hc
  · simpa using List.rdropWhile_eq_nil_iff.mp h c hc

/-- An element that does not begin with a separator begins as it does when it is trimmed. -/
theorem head?_trimSeparators {element : Bytes} (hhead : element.head? ≠ some 47) (hne : trimSeparators element ≠ []) :
    (trimSeparators element).head? = element.head? := by
  have hbegins : trimSeparators element <+: element := by
    unfold trimSeparators
    rcases element with _ | ⟨c, element⟩
    · exact List.prefix_refl _
    · rw [List.dropWhile_cons_of_neg (by simpa using hhead)]
      exact List.rdropWhile_prefix _ _
  exact (head?_of_begins hbegins hne).symm

/-- The name of a directory and that of something below it, put together: the text of the second stands behind a text with the
components of the first, which is absolute when the first is. -/
theorem gBuildFilenameOf_below {whereDir : Bytes} (hwhere : whereDir ≠ []) {path : Location} (hpath : path ≠ [])
    (h : ∀ name ∈ path, FileName name) :
    ∃ front, gBuildFilenameOf [whereDir, pathText path] = front ++ pathText path ∧
      Paths.components 47 front = Paths.components 47 whereDir ∧
      ((front ++ [47]).head? = some 47 ↔ whereDir.head? = some 47) := by
  obtain ⟨text, hne, htext, htrim, hback⟩ := trimSeparators_pathText hpath h
  have hbuilt : gBuildFilenameOf [whereDir, pathText path] = whereDir.takeWhile (· = 47) ++
      [47].intercalate ([trimSeparators whereDir, text].filter (· ≠ [])) := by
    unfold gBuildFilenameOf
    rw [List.filter_eq_self.mpr (by simp [hwhere, htext])]
    simp [htrim, hback]
  rw [hbuilt, htext]
  by_cases hseps : trimSeparators whereDir = []
  · -- the directory is the root
    have hroot := eq_of_mem_of_trimSeparators_eq_nil hseps
    have hsplit : whereDir.dropLast ++ [47] = whereDir := by
      conv_rhs => rw [← List.dropLast_concat_getLast hwhere]
      rw [hroot _ (List.getLast_mem hwhere)]
    have hnone := Paths.components_append_right hroot []
    have hnoneInit := Paths.components_append_right (fun c hc => hroot c (List.mem_of_mem_dropLast hc)) []
    rw [List.nil_append, Paths.components_nil] at hnone hnoneInit
    refine ⟨whereDir.dropLast, ?_, hnoneInit.trans hnone.symm, by rw [hsplit]⟩
    rw [List.takeWhile_eq_self_iff.mpr (by simpa using hroot), hseps]
    conv_lhs => rw [← hsplit]
    simp [hne, List.intercalate]
  · refine ⟨whereDir.takeWhile (· = 47) ++ trimSeparators whereDir, by simp [hseps, hne, List.intercalate], ?_, ?_⟩
    · rw [Paths.components_append_left (fun c hc => by simpa using List.mem_takeWhile_imp hc), components_trimSeparators]
    · obtain ⟨d, whereDir, rfl⟩ := List.exists_cons_of_ne_nil hwhere
      by_cases hd : d = 47
      · simp [hd]
      · have hfront : (d :: whereDir).takeWhile (· = 47) = [] := by simp [hd]
        rw [hfront, List.nil_append, head?_of_begins (List.prefix_append _ _) hseps,
          head?_trimSeparators (by simpa using hd) hseps]

/-- An element that begins with no separator begins as it did when those behind it are taken off. -/
theorem trimSeparators_cons {c : UInt8} (hc : c ≠ 47) (tail : Bytes) : ∃ kept, trimSeparators (c :: tail) = c :: kept := by
  have hdrop : (c :: tail).dropWhile (fun b : UInt8 => b = 47) = c :: tail := List.dropWhile_cons_of_neg (by simpa using hc)
  obtain ⟨dropped, hdropped⟩ := List.rdropWhile_prefix (fun b : UInt8 => decide (b = 47)) (l := c :: tail)
  unfold trimSeparators
  rw [hdrop]
  rcases hkept : (c :: tail).rdropWhile (fun b : UInt8 => decide (b = 47)) with _ | ⟨b, kept⟩
  · have hall := List.rdropWhile_eq_nil_iff.mp hkept c List.mem_cons_self
    exact absurd (of_decide_eq_true hall) hc
  · rw [hkept, List.cons_append] at hdropped
    exact ⟨kept, by rw [(List.cons.inj hdropped).1]⟩

/-- A name that is built begins as its first element does. -/
theorem head?_gBuildFilenameOf {first : Bytes} (hfirst : first ≠ []) (rest : List Bytes) :
    (gBuildFilenameOf (first :: rest)).head? = first.head? := by
  obtain ⟨c, tail, rfl⟩ := List.exists_cons_of_ne_nil hfirst
  have hfilter : ((c :: tail) :: rest).filter (· ≠ []) = (c :: tail) :: rest.filter (· ≠ []) :=
    List.filter_cons_of_pos (by simp)
  unfold gBuildFilenameOf
  rw [hfilter]
  simp only
  split_ifs
  · rfl
  · by_cases hc : c = 47
    · rw [hc, List.takeWhile_cons_of_pos (by simp)]
      rfl
    · obtain ⟨kept, hkept⟩ := trimSeparators_cons hc tail
      rw [List.takeWhile_cons_of_neg (by simpa using hc), List.map_cons, hkept, List.filter_cons_of_pos (by simp), List.nil_append]
      rcases ((rest.filter (· ≠ [])).map trimSeparators).filter (· ≠ []) with _ | ⟨second, more⟩ <;> simp [List.intercalate]

/-! ## One element more -/

/-- An element with no separator at its ends. -/
structure Trimmed (element : Bytes) : Prop where
  nonempty : element ≠ []
  head : ∀ c ∈ element.head?, c ≠ 47
  last : ∀ c ∈ element.getLast?, c ≠ 47

/-- The last of an element that ends with no separator. -/
theorem rtakeWhile_of_getLast {element : Bytes} (h : ∀ c ∈ element.getLast?, c ≠ 47) : element.rtakeWhile (· = 47) = [] :=
  List.rtakeWhile_eq_nil_iff.mpr fun hne => by simpa using h _ (List.getLast_mem_getLast? hne)

/-- Of an element that ends with no separator only those in front are taken off. -/
theorem takeWhile_append_trimSeparators {element : Bytes} (h : ∀ c ∈ element.getLast?, c ≠ 47) :
    element.takeWhile (· = 47) ++ trimSeparators element = element := by
  have hback : (element.dropWhile (· = 47)).rdropWhile (· = 47) = element.dropWhile (· = 47) := by
    refine List.rdropWhile_eq_self_iff.mpr fun hne => ?_
    have hsame := (List.dropWhile_suffix (l := element) fun c : UInt8 => decide (c = 47)).getLast hne
    rw [hsame]
    simpa using h _ (List.getLast_mem_getLast? _)
  rw [trimSeparators, hback, List.takeWhile_append_dropWhile]

theorem Trimmed.trimSeparators_eq {element : Bytes} (h : Trimmed element) : trimSeparators element = element := by
  have hfront : element.takeWhile (· = 47) = [] := by
    obtain ⟨c, rest, rfl⟩ := List.exists_cons_of_ne_nil h.nonempty
    rw [List.takeWhile_cons_of_neg (by simpa using h.head c rfl)]
  simpa only [hfront, List.nil_append] using takeWhile_append_trimSeparators h.last

/-- The last of several elements stands behind a separator. -/
theorem intercalate_concat (elements : List Bytes) (name : Bytes) :
    [47].intercalate (elements ++ [name]) = (if elements = [] then [] else [47].intercalate elements ++ [47]) ++ name := by
  induction elements with
  | nil => simp [List.intercalate]
  | cons element elements ih =>
    rcases elements with _ | ⟨second, more⟩
    · simp [List.intercalate]
    · simpa [List.intercalate] using ih

/-- What is built of elements of which some hold characters. -/
theorem gBuildFilenameOf_of_filter {elements rest : List Bytes} {first : Bytes} (h : elements.filter (· ≠ []) = first :: rest) :
    gBuildFilenameOf elements =
      if rest = [] ∧ trimSeparators first = [] then first
      else
        first.takeWhile (· = 47) ++ [47].intercalate (((first :: rest).map trimSeparators).filter (· ≠ [])) ++
          ((first :: rest).getLast (List.cons_ne_nil first rest)).rtakeWhile (· = 47) := by
  unfold gBuildFilenameOf
  rw [h]

/-- What is built of elements of which the last is trimmed. -/
theorem gBuildFilenameOf_concat_eq (elements : List Bytes) {name : Bytes} (hname : Trimmed name) :
    gBuildFilenameOf (elements ++ [name]) =
      ((elements.filter (· ≠ [])).headD []).takeWhile (· = 47) ++
        [47].intercalate (((elements.filter (· ≠ [])).map trimSeparators).filter (· ≠ []) ++ [name]) := by
  have hfilter : (elements ++ [name]).filter (· ≠ []) = elements.filter (· ≠ []) ++ [name] := by
    rw [List.filter_append, List.filter_cons_of_pos (by simpa using hname.nonempty), List.filter_nil]
  have hlast := rtakeWhile_of_getLast hname.last
  have hkept : [name].filter (· ≠ []) = [name] := List.filter_cons_of_pos (by simpa using hname.nonempty)
  rcases hparts : elements.filter (· ≠ []) with _ | ⟨first, rest⟩
  · rw [hparts, List.nil_append] at hfilter
    have hfront : name.takeWhile (· = 47) = [] := by
      obtain ⟨c, rest, rfl⟩ := List.exists_cons_of_ne_nil hname.nonempty
      rw [List.takeWhile_cons_of_neg (by simpa using hname.head c rfl)]
    rw [gBuildFilenameOf_of_filter hfilter, hname.trimSeparators_eq, if_neg (by simp [hname.nonempty]), List.map_singleton,
      hname.trimSeparators_eq, List.getLast_singleton, hlast, hkept, hfront, List.append_nil]
    rfl
  · rw [hparts, List.cons_append] at hfilter
    rw [gBuildFilenameOf_of_filter hfilter, if_neg (by simp)]
    simp only [← List.cons_append, List.getLast_concat, hlast, List.append_nil, List.map_append, List.map_singleton,
      hname.trimSeparators_eq, List.filter_append, hkept]
    rfl

/-- A name that is built ends as its last element does. -/
theorem getLast?_gBuildFilenameOf_concat (elements : List Bytes) {name : Bytes} (hname : Trimmed name) :
    (gBuildFilenameOf (elements ++ [name])).getLast? = name.getLast? := by
  rw [gBuildFilenameOf_concat_eq elements hname, intercalate_concat, ← List.append_assoc,
    List.getLast?_append_of_ne_nil _ hname.nonempty]

/-- One more element of a name that ends with no separator stands behind one. -/
theorem gBuildFilenameOf_concat {elements : List Bytes} (hends : ∃ c ∈ (gBuildFilenameOf elements).getLast?, c ≠ 47) {name : Bytes}
    (hname : Trimmed name) : gBuildFilenameOf (elements ++ [name]) = gBuildFilenameOf elements ++ 47 :: name := by
  obtain ⟨c, hc, hne⟩ := hends
  rw [gBuildFilenameOf_concat_eq elements hname, intercalate_concat]
  rcases hparts : elements.filter (· ≠ []) with _ | ⟨first, rest⟩
  · have hnil : gBuildFilenameOf elements = [] := by
      unfold gBuildFilenameOf
      rw [hparts]
    rw [hnil] at hc
    exact absurd hc (by simp)
  · have hseps : ¬(rest = [] ∧ trimSeparators first = []) := fun hseps => by
      rw [gBuildFilenameOf_of_filter hparts, if_pos hseps] at hc
      exact hne (eq_of_mem_of_trimSeparators_eq_nil hseps.2 c (List.mem_of_getLast? hc))
    rw [gBuildFilenameOf_of_filter hparts, if_neg hseps] at hc ⊢
    have hback : ((first :: rest).getLast (List.cons_ne_nil first rest)).rtakeWhile (· = 47) = [] := by
      by_contra hback
      rw [List.getLast?_append_of_ne_nil _ hback] at hc
      exact hne (by simpa using List.mem_rtakeWhile_imp (List.mem_of_getLast? hc))
    have hkept : ((first :: rest).map trimSeparators).filter (· ≠ []) ≠ [] := fun hnone => by
      have hmem := List.getLast_mem (List.cons_ne_nil first rest)
      have hlast : (first :: rest).getLast (List.cons_ne_nil first rest) ≠ [] := by
        have hall : ∀ element ∈ first :: rest, element ≠ [] := fun element helement => by
          rw [← hparts] at helement
          exact of_decide_eq_true (List.mem_filter.mp helement).2
        exact hall _ hmem
      have htrim := List.filter_eq_nil_iff.mp hnone _ (List.mem_map_of_mem hmem)
      have hall := eq_of_mem_of_trimSeparators_eq_nil (by simpa using htrim)
      exact hlast ((List.rtakeWhile_eq_self_iff.mpr fun b hb => by simpa using hall b hb).symm.trans hback)
    rw [if_neg hkept, hback, List.headD_cons]
    simp only [List.append_nil, List.append_assoc, List.singleton_append]

/-- Two elements, the first of which ends with no separator. -/
theorem gBuildFilenameOf_pair {first second : Bytes} (hends : ∃ c ∈ first.getLast?, c ≠ 47) (hsecond : Trimmed second) :
    gBuildFilenameOf [first, second] = first ++ 47 :: second := by
  have hlast : ∀ c ∈ first.getLast?, c ≠ 47 := by
    obtain ⟨c, hc, hne⟩ := hends
    intro d hd
    exact Option.mem_unique hd hc ▸ hne
  have hne : first ≠ [] := by
    obtain ⟨c, hc, -⟩ := hends
    exact List.ne_nil_of_mem (List.mem_of_getLast? hc)
  have hself : gBuildFilenameOf [first] = first := by
    have htrim : trimSeparators first ≠ [] := fun hnil => by
      obtain ⟨c, hc, hsep⟩ := hends
      exact hsep (eq_of_mem_of_trimSeparators_eq_nil hnil c (List.mem_of_getLast? hc))
    have hparts : [first].filter (· ≠ []) = [first] := List.filter_cons_of_pos (by simpa using hne)
    have hkept : [trimSeparators first].filter (· ≠ []) = [trimSeparators first] := List.filter_cons_of_pos (by simpa using htrim)
    rw [gBuildFilenameOf_of_filter hparts, if_neg (by simp [htrim]), List.map_singleton, hkept, List.getLast_singleton,
      rtakeWhile_of_getLast hlast, List.append_nil]
    simpa [List.intercalate] using takeWhile_append_trimSeparators hlast
  have hconcat := @gBuildFilenameOf_concat [first] (by rw [hself]; exact hends) second hsecond
  rwa [hself] at hconcat

/-! ## Directories -/

/-- The directory of a name: its components but for the last. -/
theorem gPathGetDirname_append (front : Bytes) {name : Bytes} (hname : (47 : UInt8) ∉ name) :
    Paths.components 47 (gPathGetDirname (front ++ 47 :: name)) = Paths.components 47 front ∧
      ((gPathGetDirname (front ++ 47 :: name)).head? = some 47 ↔ (front ++ [47]).head? = some 47) := by
  have hlast : (front ++ 47 :: name).rdropWhile (· ≠ 47) = front ++ [47] := by
    induction name using List.reverseRecOn with
    | nil => exact List.rdropWhile_concat_neg _ _ _ (by simp)
    | append_singleton name c ih =>
      have hc : c ≠ 47 := fun hc => hname (by simp [hc])
      rw [← List.cons_append, ← List.append_assoc, List.rdropWhile_concat_pos _ _ _ (by simpa using hc)]
      exact ih fun hmem => hname (List.mem_append_left _ hmem)
  have hsplit := List.rdropWhile_append_rtakeWhile (p := fun c : UInt8 => decide (c = 47)) (l := front)
  have hback : ∀ c ∈ front.rtakeWhile (· = 47), c = 47 := fun c hc => by simpa using List.mem_rtakeWhile_imp hc
  unfold gPathGetDirname
  rw [if_pos (by simp), hlast, List.rdropWhile_concat_pos _ _ _ (by simp)]
  simp only
  split_ifs with hfront
  · -- only separators stand in front of the name
    rw [hfront, List.nil_append] at hsplit
    rw [hsplit] at hback
    have hnone := Paths.components_append_right hback []
    rw [List.nil_append, Paths.components_nil] at hnone
    refine ⟨by rw [Paths.components_cons, Paths.components_nil, hnone], ?_⟩
    rcases front with _ | ⟨c, front⟩
    · rfl
    · simp [hback c List.mem_cons_self]
  · refine ⟨?_, ?_⟩
    · have hsame := Paths.components_append_right hback (front.rdropWhile (· = 47))
      rwa [hsplit, eq_comm] at hsame
    · rw [head?_of_begins ((List.rdropWhile_prefix _ _).trans (List.prefix_append front [47])) hfront]

/-- A text with the components of another and names behind them stands for what these names lead to from there. -/
theorem gFileNewForPath_eq_append (currentDir : Location) {text base : Bytes} {rest : Location}
    (hcomponents : Paths.components 47 text = Paths.components 47 base ++ rest)
    (hroot : text.head? = some 47 ↔ base.head? = some 47) (h : ∀ name ∈ rest, FileName name) :
    gFileNewForPath currentDir text = gFileNewForPath currentDir base ++ rest := by
  unfold gFileNewForPath
  rw [hcomponents, resolve_append h]
  by_cases hbase : base.head? = some 47
  · rw [if_pos hbase, if_pos (hroot.mpr hbase)]
  · rw [if_neg hbase, if_neg fun h => hbase (hroot.mp h)]

/-- What stands below a directory in the text stands below it as a file. -/
theorem gFileNewForPath_below (currentDir : Location) {whereDir : Bytes} (hwhere : whereDir ≠ []) {path : Location}
    (hpath : path ≠ []) (h : ∀ name ∈ path, FileName name) :
    gFileNewForPath currentDir (gBuildFilenameOf [whereDir, pathText path]) = gFileNewForPath currentDir whereDir ++ path := by
  obtain ⟨front, hbuilt, hcomponents, hroot⟩ := gBuildFilenameOf_below hwhere hpath h
  have hhead : (front ++ pathText path).head? = some 47 ↔ whereDir.head? = some 47 := by
    rw [← hroot]
    obtain ⟨name, path, rfl⟩ := List.exists_cons_of_ne_nil hpath
    cases front <;> simp [pathText]
  rw [hbuilt]
  exact gFileNewForPath_eq_append currentDir (by rw [components_append_pathText front h, hcomponents]) hhead h

/-- The directory of what stands below a directory. -/
theorem gFileNewForPath_gPathGetDirname (currentDir : Location) {whereDir : Bytes} (hwhere : whereDir ≠ []) {init : Location}
    {name : Bytes} (h : ∀ x ∈ init ++ [name], FileName x) :
    gFileNewForPath currentDir (gPathGetDirname (gBuildFilenameOf [whereDir, pathText (init ++ [name])])) =
      gFileNewForPath currentDir whereDir ++ init := by
  obtain ⟨front, hbuilt, hcomponents, hroot⟩ := gBuildFilenameOf_below hwhere
    (List.append_ne_nil_of_right_ne_nil init (List.cons_ne_nil name [])) h
  have hinit : ∀ x ∈ init, FileName x := fun x hx => h x (List.mem_append_left _ hx)
  have hsplit : front ++ pathText (init ++ [name]) = front ++ pathText init ++ 47 :: name := by simp [pathText]
  obtain ⟨hdirname, hdirnameRoot⟩ := gPathGetDirname_append (front ++ pathText init) (h name (by simp)).noSeparator
  have hhead : (gPathGetDirname (front ++ pathText init ++ 47 :: name)).head? = some 47 ↔ whereDir.head? = some 47 := by
    rw [hdirnameRoot, ← hroot]
    cases front with
    | cons c front => simp
    | nil => cases init <;> simp [pathText]
  rw [hbuilt, hsplit]
  refine gFileNewForPath_eq_append currentDir ?_ hhead hinit
  rw [hdirname, components_append_pathText front hinit, hcomponents]

/-- The names that lead to a file are none of a directory itself and its parent, when those of the directory the program runs in
are none. -/
theorem ordinary_gFileNewForPath {currentDir : Location} (hcurrent : ∀ name ∈ currentDir, name ≠ str "." ∧ name ≠ str "..")
    (path : Bytes) : ∀ name ∈ gFileNewForPath currentDir path, name ≠ str "." ∧ name ≠ str ".." := by
  have hresolve : ∀ (components dir : Location), (∀ name ∈ dir, name ≠ str "." ∧ name ≠ str "..") →
      ∀ name ∈ components.foldl (Paths.step (str ".") (str "..")) dir, name ≠ str "." ∧ name ≠ str ".." := by
    intro components
    induction components with
    | nil => exact fun dir hdir => hdir
    | cons component components ih =>
      intro dir hdir
      refine ih _ fun name hname => ?_
      unfold Paths.step at hname
      split_ifs at hname with hhere hparent
      · exact hdir name hname
      · exact hdir name (List.mem_of_mem_dropLast hname)
      · rcases List.mem_append.mp hname with hname | hname
        · exact hdir name hname
        · rw [List.mem_singleton.mp hname]
          exact ⟨hhere, hparent⟩
  refine hresolve _ _ ?_
  split_ifs
  · exact fun name hname => absurd hname List.not_mem_nil
  · exact hcurrent

end Sauvegarde
