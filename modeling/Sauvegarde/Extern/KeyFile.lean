import Sauvegarde.Extern.Glib
import Sauvegarde.Lib.Decimal
import Sauvegarde.Lib.Split

/-!
# Key files

The part of GLib's `GKeyFile` that the backends use for what they keep beside a block: groups of keys with integer values, as
text and back. Comments and blank lines are passed over.
-/

namespace Sauvegarde

/-- `GKeyFile`: the groups, each with its keys and their values as text. -/
abbrev KeyFile := List (Bytes × List (Bytes × Bytes))

/-- One entry is set in a list of entries: the value of the key is replaced, or the entry goes to the end. -/
def setEntry {α : Type} (key : Bytes) (change : Option α → α) : List (Bytes × α) → List (Bytes × α)
  | [] => [(key, change none)]
  | (k, v) :: entries => if k = key then (k, change (some v)) :: entries else (k, v) :: setEntry key change entries

/-- `g_key_file_set_value`. -/
def gKeyFileSetValue (file : KeyFile) (group key value : Bytes) : KeyFile :=
  setEntry group (fun entries => setEntry key (fun _ => value) (entries.getD [])) file

/-- `g_key_file_set_int64`. -/
def gKeyFileSetInt64 (file : KeyFile) (group key : Bytes) (value : Int64) : KeyFile :=
  gKeyFileSetValue file group key (Decimal.printInt value.toInt)

/-- `g_key_file_set_integer`. -/
def gKeyFileSetInteger (file : KeyFile) (group key : Bytes) (value : Int32) : KeyFile :=
  gKeyFileSetValue file group key (Decimal.printInt value.toInt)

/-- The lines of the entries of a group. -/
def entryLines (entries : List (Bytes × Bytes)) : Bytes := entries.flatMap fun (key, value) => key ++ 61 :: (value ++ [10])

/-- `g_key_file_to_data`: a blank line stands between two groups. -/
def gKeyFileToData (file : KeyFile) : Bytes :=
  file.foldl (fun data (group, entries) =>
    (if data = [] then [] else data ++ [10]) ++ (91 :: (group ++ [93, 10]) ++ entryLines entries)) []

/-- What a line of a key file is. -/
inductive KeyFileLine where
  | comment
  | group (name : Bytes)
  | entry (key value : Bytes)
  | wrong
deriving DecidableEq

/-- `g_key_file_parse_line`. -/
def parseLine (line : Bytes) : KeyFileLine :=
  match line.dropWhile Decimal.isBlank with
  | [] => .comment
  | c :: rest =>
    if c = 35 then .comment
    else if c = 91 ∧ 93 ∈ rest then .group (rest.takeWhile (· ≠ 93))
    else if 61 ∈ c :: rest then
      .entry ((c :: rest).takeWhile (· ≠ 61)) ((((c :: rest).dropWhile (· ≠ 61)).drop 1).dropWhile Decimal.isBlank)
    else .wrong

/-- The loop of `g_key_file_load_from_data` over the lines; an entry before the first group is wrong. -/
def parseLines : KeyFile → Option Bytes → List Bytes → Option KeyFile
  | file, _, [] => some file
  | file, current, line :: lines =>
    match parseLine line, current with
    | .comment, _ => parseLines file current lines
    | .group name, _ => parseLines (setEntry name (fun entries => entries.getD []) file) (some name) lines
    | .entry key value, some group => parseLines (gKeyFileSetValue file group key value) current lines
    | _, _ => none

/-- `g_key_file_load_from_data`. -/
def gKeyFileLoadFromData (data : Bytes) : Option KeyFile := parseLines [] none (data.splitOn 10)

/-- The value of a key; none when the key is not there. -/
def gKeyFileGetValue (file : KeyFile) (group key : Bytes) : Option Bytes :=
  ((file.find? fun g => g.1 = group).bind fun g => g.2.find? fun e => e.1 = key).map Prod.snd

/-- A number as `strtoll` reads it: what does not fit becomes the nearest that does. -/
def gKeyFileGetInt64 (value : Bytes) : Int64 := Int64.ofInt (max (-2 ^ 63) (min (2 ^ 63 - 1) ((Decimal.scan value).getD 0)))

/-- `g_key_file_get_integer`: zero for what does not fit. Nothing stands behind a number in the files read here. -/
def gKeyFileGetInteger (value : Bytes) : Int32 :=
  match Decimal.scan value with
  | none => 0
  | some z => if -2 ^ 31 ≤ z ∧ z < 2 ^ 31 then Int32.ofInt z else 0

/-! ## Reading what was written -/

/-- A key that is read back as it stands: it is no comment and no group, does not begin with a blank and holds no equals sign
and no line end. -/
structure PlainKey (key : Bytes) : Prop where
  first : ∃ c rest, key = c :: rest ∧ Decimal.isBlank c = false ∧ c ≠ 35 ∧ c ≠ 91
  noEquals : (61 : UInt8) ∉ key
  noLineEnd : (10 : UInt8) ∉ key

/-- The line of a key and a number is an entry. -/
theorem parseLine_entry {key : Bytes} (hkey : PlainKey key) (z : Int) :
    parseLine (key ++ 61 :: Decimal.printInt z) = .entry key (Decimal.printInt z) := by
  obtain ⟨c, rest, rfl, hblank, hcomment, hgroup⟩ := hkey.first
  have hclear : ∀ d ∈ c :: rest, decide (d ≠ 61) = true := fun d hd => by
    simpa using fun e : d = 61 => hkey.noEquals (e ▸ hd)
  have hdrop : ((c :: rest) ++ 61 :: Decimal.printInt z).dropWhile Decimal.isBlank =
      (c :: rest) ++ 61 :: Decimal.printInt z := by
    rw [List.cons_append, List.dropWhile_cons, hblank]
    rfl
  rw [parseLine, hdrop, List.cons_append]
  simp only [hcomment, hgroup, false_and, if_false]
  rw [← List.cons_append, if_pos (by simp), List.takeWhile_append_of_pos hclear, List.dropWhile_append_of_pos hclear]
  simp [Decimal.dropWhile_isBlank_printInt]

/-- The line of a group is that group. -/
theorem parseLine_group {group : Bytes} (h : (93 : UInt8) ∉ group) : parseLine (91 :: (group ++ [93])) = .group group := by
  have hclear : ∀ d ∈ group, decide (d ≠ 93) = true := fun d hd => by simpa using fun e : d = 93 => h (e ▸ hd)
  have hblank : Decimal.isBlank 91 = false := by decide
  have hcomment : ¬ (91 : UInt8) = 35 := by decide
  rw [parseLine, List.dropWhile_cons, hblank]
  simp only [Bool.false_eq_true, if_false, hcomment]
  rw [if_pos ⟨trivial, by simp⟩, List.takeWhile_append_of_pos hclear]
  simp

/-- A file of one group with two numbers is read back. -/
theorem gKeyFileLoadFromData_gKeyFileToData (group : Bytes) {first second : Bytes} (hgroup : (93 : UInt8) ∉ group)
    (hline : (10 : UInt8) ∉ group) (hfirst : PlainKey first) (hsecond : PlainKey second) (hne : first ≠ second)
    (n m : Int) :
    gKeyFileLoadFromData (gKeyFileToData [(group, [(first, Decimal.printInt n), (second, Decimal.printInt m)])]) =
      some [(group, [(first, Decimal.printInt n), (second, Decimal.printInt m)])] := by
  have hentry : ∀ {key : Bytes}, PlainKey key → ∀ z : Int, (10 : UInt8) ∉ key ++ 61 :: Decimal.printInt z := by
    intro key hkey z hmem
    rcases List.mem_append.mp hmem with h | h
    · exact hkey.noLineEnd h
    · exact Decimal.not_mem_printInt (by decide) ((List.mem_cons.mp h).resolve_left (by decide))
  have hgroupLine : (10 : UInt8) ∉ 91 :: (group ++ [93]) := by simpa using hline
  have htext : gKeyFileToData [(group, [(first, Decimal.printInt n), (second, Decimal.printInt m)])] =
      (91 :: (group ++ [93])) ++ [first ++ 61 :: Decimal.printInt n, second ++ 61 :: Decimal.printInt m, []].flatMap
        fun line => 10 :: line := by
    simp [gKeyFileToData, entryLines]
  rw [gKeyFileLoadFromData, htext, Split.splitOn_flatMap hgroupLine _ (by simpa using ⟨by simpa using hentry hfirst n,
    by simpa using hentry hsecond m⟩)]
  simp only [parseLines, parseLine_group hgroup, parseLine_entry hfirst, parseLine_entry hsecond]
  rw [show parseLine [] = .comment from rfl]
  simp [gKeyFileSetValue, setEntry, hne]

/-- A number of 64 bits is read back. -/
theorem gKeyFileGetInt64_printInt (n : Int64) : gKeyFileGetInt64 (Decimal.printInt n.toInt) = n := by
  have hscan := Decimal.scan_printInt n.toInt (fun _ h => absurd h List.not_mem_nil) Decimal.stops_nil
  have hlo := n.le_toInt
  have hhi := n.toInt_lt
  rw [List.nil_append, List.append_nil] at hscan
  rw [gKeyFileGetInt64, hscan, Option.getD_some, min_eq_right (by omega), max_eq_right (by omega), Int64.ofInt_toInt]

/-- A number of 32 bits is read back. -/
theorem gKeyFileGetInteger_printInt (n : Int32) : gKeyFileGetInteger (Decimal.printInt n.toInt) = n := by
  have hscan := Decimal.scan_printInt n.toInt (fun _ h => absurd h List.not_mem_nil) Decimal.stops_nil
  rw [List.nil_append, List.append_nil] at hscan
  simp only [gKeyFileGetInteger, hscan]
  rw [if_pos ⟨n.le_toInt, n.toInt_lt⟩, Int32.ofInt_toInt]

end Sauvegarde
