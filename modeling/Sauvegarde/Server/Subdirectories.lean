import Mathlib.Data.Nat.Digits.Lemmas
import Sauvegarde.Server.FileData

/-!
# The directories of the blocks

The directories that the file backend makes when it begins, and the level that it takes from the configuration file. The numbers of
`make_all_subdirectories` are doubles, which hold whole numbers of this size and their quotients by a power of 256 exactly.
-/

namespace Sauvegarde

/-! ## The configuration -/

/-- The level that is used when none is configured. -/
def FILE_BACKEND_LEVEL : Nat := 2

theorem FILE_BACKEND_LEVEL_lt : FILE_BACKEND_LEVEL < HASH_LEN := by decide

/-- The values `file_init_backend` begins with. -/
def defaultFileBackend : FileBackend := ⟨str "/var/tmp/cdpfgl/server", FILE_BACKEND_LEVEL, FILE_BACKEND_LEVEL_lt⟩

/-- The level that is taken when one is read: others leave it as it is. -/
def readLevel (level : UInt32) (old : Nat) : Nat := if 0 < level ∧ level < 6 then level.toNat else old

theorem readLevel_lt (level : UInt32) {old : Nat} (h : old < HASH_LEN) : readLevel level old < HASH_LEN := by
  unfold readLevel
  split_ifs with hlevel
  · have hlt : level.toNat < 6 := UInt32.lt_iff_toNat_lt.mp hlevel.2
    exact lt_of_lt_of_le hlt (by decide)
  · exact h

/-- `read_from_group_file_backend`. The group is what `read_string_from_file` and `read_int_from_file` read of the group of the file
backend, when the configuration file is there and has that group. -/
def readFromGroupFileBackend (homeDir : Bytes) (fileBackend : FileBackend) (group : Option (Option Bytes × Int32)) : FileBackend where
  pathPrefix := ((group.bind Prod.fst).map (normalizeDirectory homeDir)).getD fileBackend.pathPrefix
  level := readLevel ((group.map fun values => values.2.toUInt32).getD 0) fileBackend.level
  level_lt := readLevel_lt _ fileBackend.level_lt

/-! ## Making the directories -/

/-- The octet that `make_all_subdirectories` makes of a number at one place. -/
def octetOf (i p : Nat) : UInt8 :=
  let number := i / 256 ^ p
  UInt8.ofNat (if 255 < number then number % 256 else number)

/-- The path that `make_all_subdirectories` makes of a number: the separator behind the last octet is taken off. -/
def subdirectory (level i : Nat) : Bytes :=
  ((List.range level).reverse.foldl (fun path p => path ++ (hexOctet (octetOf i p) ++ [47])) []).dropLast

/-- `make_all_subdirectories`: the directories that are created, one after the other. -/
def makeAllSubdirectories (fileBackend : FileBackend) : List Bytes :=
  if fileBackend.level < 5 ∧ fileBackend.level > 1 then
    (List.range (256 ^ fileBackend.level)).map (fun i =>
      gBuildFilenameOf [fileBackend.pathPrefix, str "data", subdirectory fileBackend.level i]) ++
    [gBuildFilenameOf [fileBackend.pathPrefix, str "data", str ".done"]]
  else []

/-! ## Numbers and their octets -/

/-- The number whose octets are some bytes, the highest first. -/
def numberOf (bytes : Bytes) : Nat := Nat.ofDigits 256 (bytes.reverse.map UInt8.toNat)

theorem toNat_lt_of_mem {bytes : Bytes} : ∀ n ∈ bytes.reverse.map UInt8.toNat, n < 256 := by
  intro n hn
  obtain ⟨b, -, rfl⟩ := List.mem_map.mp hn
  exact b.toNat_lt

theorem numberOf_lt (bytes : Bytes) : numberOf bytes < 256 ^ bytes.length := by
  have hlt := Nat.ofDigits_lt_base_pow_length (by omega) (@toNat_lt_of_mem bytes)
  rwa [List.length_map, List.length_reverse] at hlt

/-- A quotient above an octet is cut to one, and one below it is its own rest. -/
theorem octetOf_eq (i p : Nat) : octetOf i p = UInt8.ofNat (i / 256 ^ p % 256) := by
  unfold octetOf
  simp only
  split_ifs with h
  · rfl
  · rw [Nat.mod_eq_of_lt (by omega)]

/-- The octet at a place, counted from the lowest. -/
theorem octetOf_numberOf {bytes : Bytes} {p : Nat} (hp : p < bytes.reverse.length) :
    octetOf (numberOf bytes) p = bytes.reverse[p] := by
  have hdrop : (bytes.reverse.map UInt8.toNat).drop p =
      bytes.reverse[p].toNat :: (bytes.reverse.map UInt8.toNat).drop (p + 1) := by
    rw [List.drop_eq_getElem_cons (by rwa [List.length_map]), List.getElem_map]
  rw [octetOf_eq, numberOf, Nat.ofDigits_div_pow_eq_ofDigits_drop p (by omega) _ toNat_lt_of_mem, hdrop, Nat.ofDigits_cons]
  have hmod : (bytes.reverse[p].toNat + 256 * Nat.ofDigits 256 ((bytes.reverse.map UInt8.toNat).drop (p + 1))) % 256 =
      bytes.reverse[p].toNat := by
    have hlt := bytes.reverse[p].toNat_lt
    omega
  rw [hmod, UInt8.ofNat_toNat]

/-- From the highest place to the lowest the octets are the bytes. -/
theorem map_octetOf_numberOf (bytes : Bytes) : (List.range bytes.length).reverse.map (octetOf (numberOf bytes)) = bytes := by
  rw [List.map_reverse, List.reverse_eq_iff]
  refine List.ext_getElem (by simp) fun p hp hp' => ?_
  rw [List.getElem_map, List.getElem_range, octetOf_numberOf hp']

/-! ## The paths -/

/-- The separators behind the elements, but for the last, are those before them, but for the first. -/
theorem cons_dropLast_flatMap {bytes : Bytes} (h : bytes ≠ []) :
    47 :: (bytes.flatMap fun byte => hexOctet byte ++ [47]).dropLast = bytes.flatMap fun byte => 47 :: hexOctet byte := by
  have hmoved : 47 :: (bytes.flatMap fun byte => hexOctet byte ++ [47]) =
      (bytes.flatMap fun byte => 47 :: hexOctet byte) ++ [47] := by
    clear h
    induction bytes with
    | nil => rfl
    | cons b bytes ih =>
      rw [List.flatMap_cons, List.flatMap_cons, List.append_assoc, List.append_assoc, ← ih]
      rfl
  have hne : (bytes.flatMap fun byte => hexOctet byte ++ [47]) ≠ [] := by
    obtain ⟨b, rest, rfl⟩ := List.exists_cons_of_ne_nil h
    simp
  have hdropped := congrArg List.dropLast hmoved
  rwa [List.dropLast_cons_of_ne_nil hne, List.dropLast_concat] at hdropped

/-- The path of a number, by its octets. -/
theorem subdirectory_eq (level i : Nat) :
    subdirectory level i = (((List.range level).reverse.map (octetOf i)).flatMap fun byte => hexOctet byte ++ [47]).dropLast := by
  have hfold : ∀ (places : List Nat) (path : Bytes),
      places.foldl (fun path p => path ++ (hexOctet (octetOf i p) ++ [47])) path =
        path ++ (places.map (octetOf i)).flatMap fun byte => hexOctet byte ++ [47] := by
    intro places
    induction places with
    | nil => simp
    | cons p places ih =>
      intro path
      rw [List.foldl_cons, ih, List.map_cons, List.flatMap_cons, List.append_assoc]
  rw [subdirectory, hfold, List.nil_append]

/-- The path of the number whose octets are some bytes. -/
theorem subdirectory_numberOf {bytes : Bytes} (h : bytes ≠ []) :
    47 :: subdirectory bytes.length (numberOf bytes) = bytes.flatMap fun byte => 47 :: hexOctet byte := by
  rw [subdirectory_eq, map_octetOf_numberOf, cons_dropLast_flatMap h]

/-- No separator stands at the ends of such a path. -/
theorem subdirectory_trimmed {bytes : Bytes} (h : bytes ≠ []) : Trimmed (subdirectory bytes.length (numberOf bytes)) := by
  have hpath := subdirectory_numberOf h
  generalize subdirectory bytes.length (numberOf bytes) = path at hpath ⊢
  obtain ⟨b, rest, hfront⟩ := List.exists_cons_of_ne_nil h
  obtain ⟨init, last, hback⟩ := (List.eq_nil_or_concat bytes).resolve_left h
  have hbegins : path = hexOctet b ++ rest.flatMap fun byte => 47 :: hexOctet byte := by
    rw [hfront] at hpath
    exact (List.cons.inj hpath).2
  have hends : ∃ c ∈ (47 :: path).getLast?, c ≠ 47 := by
    rw [hpath, hback, List.concat_eq_append, List.flatMap_append, List.flatMap_singleton]
    exact getLast_hexOctet _ last
  have hne : path ≠ [] := by simp [hbegins, hexOctet]
  refine ⟨hne, fun c hc => ?_, fun c hc => ?_⟩
  · rw [hbegins] at hc
    have hhead : (hexOctet b).head? = some c := hc
    exact hexOctet_ne_slash (List.mem_of_head? hhead)
  · obtain ⟨d, hd, hdne⟩ := hends
    rw [← List.singleton_append, List.getLast?_append_of_ne_nil _ hne] at hd
    exact Option.mem_unique hd hc ▸ hdne

end Sauvegarde
