import Mathlib.Logic.Function.Basic
import Sauvegarde.Extern.Gio
import Sauvegarde.Libcdpfgl.Files
import Sauvegarde.Server.MinioBackend

/-!
# Blocks in flat files

The part of file_backend.c that keeps each block in a file named by its hash, in a tree of directories, with a key file beside
it. The file system is a parameter: reads and writes succeed, but for the file of a block that is stored.
-/

namespace Sauvegarde

/-- The content of the files, by their names. -/
abbrev Files := Bytes → Option Bytes

/-- `g_build_filename` of two elements. -/
def gBuildFilename (first second : Bytes) : Bytes := gBuildFilenameOf [first, second]

/-- `file_backend_t`: `read_from_group_file_backend` takes levels below 6, `make_path_from_hash` those below the length of a
hash. -/
structure FileBackend where
  pathPrefix : Bytes
  level : Nat
  level_lt : level < HASH_LEN

/-- `make_path_from_hash`: one directory for each of the first bytes of the hash. -/
def makePathFromHash (path : Bytes) (hash : Bytes) (level : Nat) : Option Bytes :=
  if level < HASH_LEN then
    some ((hash.take level).foldl (fun oldPath byte => gBuildFilename oldPath (hexOctet byte)) path)
  else none

/-- `build_filename_from_hash`. -/
def buildFilenameFromHash (path : Bytes) (hexHash : CString) (level : Nat) : Bytes :=
  gBuildFilename path (hexHash.bytes.drop (level * 2))

/-- The name of the file of a block, as `file_store_data` and `file_build_needed_hash_list` make it. -/
def blockFilename (backend : FileBackend) (hash : Option Bytes) : Option Bytes :=
  let pathPrefix := gBuildFilename backend.pathPrefix (str "data")
  (hash.bind fun hash => makePathFromHash pathPrefix hash backend.level).bind fun path =>
    (hashToString hash).map fun hexHash => buildFilenameFromHash path hexHash backend.level

/-- `set_metadata_to_file_meta`. -/
def setMetadataToFileMeta (files : Files) (filename : Bytes) (uncmplen : Int64) (cmptype : Int16) : Files :=
  Function.update files (filename ++ str ".meta") (some (gKeyFileToData (filemetaKeyfile uncmplen cmptype)))

/-- `file_store_data`. -/
def fileStoreData (backend : FileBackend) (files : Files) (hashData : HashData) : Files :=
  match blockFilename backend hashData.hash, hashData.data with
  | some filename, some data =>
    Function.update (setMetadataToFileMeta files filename hashData.uncmplen hashData.cmptype) filename
      (some (data.take hashData.read.toUInt64.toNat))
  | _, _ => files

/-- What comes of the file of a block that is stored: it is not opened, or there are so many of the bytes in it when it is closed. -/
inductive WriteOutcome where
  | notOpened
  | written (bytes : Nat)

/-- `file_store_data` when the file cannot be opened or the write ends early. The key file was written before; an error is only
printed, and what was written of the block is its file. -/
def fileStoreDataOutcome (backend : FileBackend) (outcome : WriteOutcome) (files : Files) (hashData : HashData) : Files :=
  match blockFilename backend hashData.hash, hashData.data with
  | some filename, some data =>
    let files := setMetadataToFileMeta files filename hashData.uncmplen hashData.cmptype
    match outcome with
    | .notOpened => files
    | .written bytes => Function.update files filename (some ((data.take hashData.read.toUInt64.toNat).take bytes))
  | _, _ => files

/-- The name of the file of a block, as `file_retrieve_data` makes it from the hash in hexadecimal. -/
def hexBlockFilename (backend : FileBackend) (hexHash : CString) : Option Bytes :=
  let pathPrefix := gBuildFilename backend.pathPrefix (str "data")
  ((stringToHash (some hexHash)).bind fun hash => makePathFromHash pathPrefix hash backend.level).map fun path =>
    buildFilenameFromHash path hexHash backend.level

/-- The key file beside the file of a block, when it is there and can be read. -/
def fileMeta (files : Files) (filename : Bytes) : Option KeyFile := (files (filename ++ str ".meta")).bind gKeyFileLoadFromData

/-- `get_cmptype_from_file_meta`. -/
def getCmptypeFromFileMeta (files : Files) (filename : Bytes) : Int16 :=
  let cmptype := match fileMeta files filename with
    | some keyfile => (readIntFromFile keyfile GN_META KN_CMPTYPE COMPRESS_NONE_TYPE.toInt32).toInt16
    | none => COMPRESS_NONE_TYPE
  if isCompressTypeAllowed cmptype then cmptype else COMPRESS_NONE_TYPE

/-- `get_uncmplen_from_file_meta`. -/
def getUncmplenFromFileMeta (files : Files) (filename : Bytes) : Int64 :=
  match fileMeta files filename with
  | some keyfile => readInt64FromFile keyfile GN_META KN_UNCMPLEN 0
  | none => 0

/-- `file_retrieve_data`: `none` when the file of the block cannot be opened. -/
def fileRetrieveData (backend : FileBackend) (files : Files) (hexHash : CString) : Option HashData :=
  (hexBlockFilename backend hexHash).bind fun filename =>
    let cmptype := getCmptypeFromFileMeta files filename
    (files filename).map fun data =>
      newHashDataAsIs (some data) (Int64.ofNat data.length) (stringToHash (some hexHash)) cmptype
        (getUncmplenFromFileMeta files filename)

/-- Whether the file of a block exists. A hash that is `NULL` has no file; clients send none. -/
def blockExists (backend : FileBackend) (files : Files) (hash : Option Bytes) : Bool :=
  match blockFilename backend hash with
  | none => false
  | some filename => (files filename).isSome

/-- Whether the block of a hash is stored. -/
def hasBlock (backend : FileBackend) (files : Files) (h : Hash) : Bool := blockExists backend files (some h.bytes)

/-- The loop of `file_build_needed_hash_list`: each hash whose file does not exist goes once to the front of the list. -/
def prependNeeded (backend : FileBackend) (files : Files) (needed : List HashData) : List HashData → List HashData
  | [] => needed
  | hashData :: head =>
    if blockExists backend files hashData.hash = false ∧ hashDataIsInList hashData needed = false then
      prependNeeded backend files (copyOnlyHash hashData :: needed) head
    else prependNeeded backend files needed head

/-- `file_build_needed_hash_list`. -/
def fileBuildNeededHashList (backend : FileBackend) (files : Files) (hashDataList : List HashData) : List HashData :=
  (prependNeeded backend files [] hashDataList).reverse

/-! ## The names of the files -/

/-- What stands behind the directory of the blocks in the name of the file of one. -/
def blockPath (level : Nat) (hash : Bytes) : Bytes :=
  ((hash.take level).flatMap fun byte => 47 :: hexOctet byte) ++ 47 :: (hash.drop level).flatMap hexOctet

theorem hexDigit_ne_slash_all : ∀ n : Fin 16, hexDigit n ≠ 47 := by decide

/-- No digit is a separator. -/
theorem hexOctet_ne_slash {b c : UInt8} (h : c ∈ hexOctet b) : c ≠ 47 := by
  have hb := b.toNat_lt
  simp only [hexOctet, List.mem_cons, List.not_mem_nil, or_false] at h
  rcases h with rfl | rfl
  · exact hexDigit_ne_slash_all ⟨_, by omega⟩
  · exact hexDigit_ne_slash_all ⟨_, by omega⟩

/-- Two elements that do not touch the separator are put one behind the other. -/
theorem gBuildFilename_eq {first second : Bytes} (hfirst : ∃ c ∈ first.getLast?, c ≠ 47) (hsecond : Trimmed second) :
    gBuildFilename first second = first ++ 47 :: second := gBuildFilenameOf_pair hfirst hsecond

/-- The digits of a byte are a name. -/
theorem hexOctet_trimmed (b : UInt8) : Trimmed (hexOctet b) where
  nonempty := List.cons_ne_nil _ _
  head := fun _ hc => hexOctet_ne_slash (List.mem_of_head? hc)
  last := fun _ hc => hexOctet_ne_slash (List.mem_of_getLast? hc)

theorem data_trimmed : Trimmed (str "data") := by
  have hdata : str "data" = [100, 97, 116, 97] := by decide
  rw [hdata]
  exact ⟨by simp, by simp, by simp⟩

/-- The directory of the blocks is named by letters at its end. -/
theorem getLast_dataDirectory (pathPrefix : Bytes) : ∃ c ∈ (gBuildFilename pathPrefix (str "data")).getLast?, c ≠ 47 := by
  refine ⟨97, ?_, by decide⟩
  rw [gBuildFilename, ← List.singleton_append, getLast?_gBuildFilenameOf_concat [pathPrefix] data_trimmed]
  decide

/-- The last byte of what ends with the digits of a byte is no separator. -/
theorem getLast_hexOctet (bytes : Bytes) (b : UInt8) : ∃ c ∈ (bytes ++ 47 :: hexOctet b).getLast?, c ≠ 47 := by
  refine ⟨hexDigit (b.toNat % 16), by simp [hexOctet, List.getLast?_append], hexOctet_ne_slash (b := b) (by simp [hexOctet])⟩

/-- The loop over the first bytes of the hash makes one directory of each. -/
theorem foldl_gBuildFilename (bytes : Bytes) :
    ∀ path : Bytes, (∃ c ∈ path.getLast?, c ≠ 47) →
      bytes.foldl (fun oldPath byte => gBuildFilename oldPath (hexOctet byte)) path =
          path ++ bytes.flatMap (fun byte => 47 :: hexOctet byte) ∧
        ∃ c ∈ (path ++ bytes.flatMap (fun byte => 47 :: hexOctet byte)).getLast?, c ≠ 47 := by
  induction bytes with
  | nil =>
    intro path hpath
    simpa using hpath
  | cons b bytes ih =>
    intro path hpath
    have hstep : gBuildFilename path (hexOctet b) = path ++ 47 :: hexOctet b :=
      gBuildFilename_eq hpath (hexOctet_trimmed b)
    have hrest := ih (path ++ 47 :: hexOctet b) (getLast_hexOctet path b)
    simp only [List.foldl_cons, hstep, List.flatMap_cons]
    rw [← List.append_assoc]
    exact hrest

/-- The name of the file of a block: the directory of the blocks, and a path that the hash gives. -/
theorem blockFilename_eq (backend : FileBackend) (h : Hash) :
    blockFilename backend (some h.bytes) =
      some (gBuildFilename backend.pathPrefix (str "data") ++ blockPath backend.level h.bytes) := by
  obtain ⟨hpath, hlast⟩ := foldl_gBuildFilename (h.bytes.take backend.level) _ (getLast_dataDirectory backend.pathPrefix)
  have hlevel : backend.level < HASH_LEN := backend.level_lt
  have hhex : ∀ bytes : Bytes, ∀ n, (bytes.flatMap hexOctet).drop (n * 2) = (bytes.drop n).flatMap hexOctet := by
    intro bytes
    induction bytes with
    | nil => simp
    | cons b bytes ih =>
      intro n
      rcases n with _ | n
      · simp
      · simp [hexOctet, Nat.succ_mul, ih]
  have hdigits : ∀ c ∈ (h.bytes.drop backend.level).flatMap hexOctet, c ≠ 47 := fun c hc => by
    obtain ⟨b, -, hcb⟩ := List.mem_flatMap.mp hc
    exact hexOctet_ne_slash hcb
  have hsecond : Trimmed ((h.bytes.drop backend.level).flatMap hexOctet) := by
    have hmore : h.bytes.drop backend.level ≠ [] :=
      List.ne_nil_of_length_pos (by rw [List.length_drop, h.length_eq]; omega)
    obtain ⟨b, rest, hbytes⟩ := List.exists_cons_of_ne_nil hmore
    exact ⟨by simp [hbytes, hexOctet], fun c hc => hdigits c (List.mem_of_head? hc),
      fun c hc => hdigits c (List.mem_of_getLast? hc)⟩
  simp only [blockFilename, makePathFromHash, hlevel, if_true, Option.bind_some, hashToString, Option.map_some,
    buildFilenameFromHash, hexText, List.take_of_length_le (le_of_eq h.length_eq), hpath, hhex,
    gBuildFilename_eq hlast hsecond, blockPath, List.append_assoc]

/-- Pieces of one length, put one behind the other, give the elements back. -/
theorem flatMap_inj {f : UInt8 → Bytes} {n : Nat} (hlen : ∀ a, (f a).length = n + 1) (hf : Function.Injective f) :
    ∀ a b : Bytes, a.flatMap f = b.flatMap f → a = b := by
  intro a
  induction a with
  | nil =>
    intro b h
    rcases b with _ | ⟨y, b⟩
    · rfl
    · have := congrArg List.length h
      rw [List.flatMap_nil, List.flatMap_cons, List.length_append, hlen, List.length_nil] at this
      omega
  | cons x a ih =>
    intro b h
    rcases b with _ | ⟨y, b⟩
    · have := congrArg List.length h
      rw [List.flatMap_nil, List.flatMap_cons, List.length_append, hlen, List.length_nil] at this
      omega
    · simp only [List.flatMap_cons] at h
      obtain ⟨hxy, hab⟩ := List.append_inj h ((hlen x).trans (hlen y).symm)
      rw [hf hxy, ih b hab]

/-- The digits of a byte give the byte. -/
theorem hexOctet_injective : Function.Injective hexOctet := by
  intro a b h
  have hrec := octetsOfHex_hexOctets [a]
  rw [List.flatMap_cons, h, ← List.flatMap_cons] at hrec
  have heq : [b] = [a] := (octetsOfHex_hexOctets [b]).symm.trans hrec
  exact (List.cons.inj heq).1.symm

/-- The path of a block is as long as that of any other. -/
theorem length_blockPath (level : Nat) (hash : Bytes) :
    (blockPath level hash).length = min level hash.length * 3 + 1 + (hash.length - level) * 2 := by
  simp [blockPath, hexOctet, List.length_flatMap]
  omega

/-- Hashs with the same path are the same. -/
theorem blockPath_inj {level : Nat} {g h : Hash} (heq : blockPath level g.bytes = blockPath level h.bytes) : g = h := by
  obtain ⟨htake, hdrop⟩ := List.append_inj heq (by simp [hexOctet, List.length_flatMap, g.length_eq, h.length_eq])
  have htake := flatMap_inj (n := 2) (fun a => rfl) (fun a b h => hexOctet_injective (List.cons.inj h).2) _ _ htake
  have hdrop := flatMap_inj (n := 1) (fun a => rfl) hexOctet_injective _ _ (List.cons.inj hdrop).2
  rw [Hash.ext_iff, ← List.take_append_drop level g.bytes, htake, hdrop, List.take_append_drop]

/-- The name of the file of a block, put together. -/
def blockName (backend : FileBackend) (h : Hash) : Bytes :=
  gBuildFilename backend.pathPrefix (str "data") ++ blockPath backend.level h.bytes

/-- Blocks with different hashs are in different files. -/
theorem blockName_inj {backend : FileBackend} {g h : Hash} (heq : blockName backend g = blockName backend h) : g = h :=
  blockPath_inj (List.append_cancel_left heq)

/-- No file of a block is the key file beside one. -/
theorem blockName_ne_meta (backend : FileBackend) (g h : Hash) : blockName backend g ≠ blockName backend h ++ str ".meta" := by
  intro heq
  have hlen := congrArg List.length heq
  have hsuffix : (str ".meta").length = 5 := by decide
  simp only [blockName, List.length_append, length_blockPath, g.length_eq, h.length_eq, hsuffix] at hlen
  omega

/-- A block is stored when there is a file of its name. -/
theorem hasBlock_eq (backend : FileBackend) (files : Files) (h : Hash) :
    hasBlock backend files h = (files (blockName backend h)).isSome := by
  simp only [hasBlock, blockExists, blockFilename_eq, blockName]

/-- The name that is made from a hash in hexadecimal is the one that is made from the hash. -/
theorem hexBlockFilename_hexText (backend : FileBackend) (h : Hash) :
    hexBlockFilename backend (hexText h.bytes) = blockFilename backend (some h.bytes) := by
  have htake : h.bytes.take HASH_LEN = h.bytes := List.take_of_length_le (le_of_eq h.length_eq)
  have hhash := stringToHash_hashToString h
  simp only [hashToString, Option.map_some, htake] at hhash
  simp only [hexBlockFilename, blockFilename, hhash, Option.bind_some, hashToString, Option.map_some, htake]
  rcases makePathFromHash _ h.bytes backend.level with _ | path
  · rfl
  · rfl

/-- What `file_store_data` writes of a block. -/
theorem fileStoreData_isBlock (backend : FileBackend) (files : Files) {hd : HashData} {h : Hash} {data : Bytes}
    (hhd : hd.IsBlock h data) :
    fileStoreData backend files hd = Function.update (Function.update files (blockName backend h ++ str ".meta")
      (some (gKeyFileToData (filemetaKeyfile hd.uncmplen hd.cmptype)))) (blockName backend h) (some data) := by
  simp only [fileStoreData, hhd.hash, hhd.data, blockFilename_eq, setMetadataToFileMeta, (length_int64 hhd.read).2.1,
    List.take_length, blockName]

/-- After a block is stored, the blocks that are there are those that were there before, and that block. -/
theorem hasBlock_fileStoreData {backend : FileBackend} {files : Files} {hd : HashData} {h g : Hash}
    (hhd : hd.hash = some h.bytes) :
    hasBlock backend (fileStoreData backend files hd) g = true ↔
      hasBlock backend files g = true ∨ (hd.data ≠ none ∧ g = h) := by
  obtain ⟨hash, data, read, cmptype, uncmplen⟩ := hd
  subst hhd
  rcases data with _ | data
  · simp [fileStoreData]
  · have hmeta := blockName_ne_meta backend g h
    simp only [blockName] at hmeta
    simp only [hasBlock, blockExists, blockFilename_eq, fileStoreData, setMetadataToFileMeta, ne_eq, reduceCtorEq,
      not_false_eq_true, true_and]
    by_cases hgh : g = h
    · simp [hgh]
    · have hne : gBuildFilename backend.pathPrefix (str "data") ++ blockPath backend.level g.bytes ≠
          gBuildFilename backend.pathPrefix (str "data") ++ blockPath backend.level h.bytes :=
        fun heq => hgh (blockName_inj heq)
      rw [Function.update_of_ne hne, Function.update_of_ne hmeta]
      simp [hgh]

/-- A file that is there stays there when one is written. -/
theorem isSome_update {files : Files} {filename : Bytes} (name content : Bytes) (h : (files filename).isSome = true) :
    (Function.update files name (some content) filename).isSome = true := by
  by_cases heq : filename = name
  · rw [heq, Function.update_self]
    rfl
  · rwa [Function.update_of_ne heq]

/-- A block that is stored stays stored. -/
theorem hasBlock_mono {backend : FileBackend} {files : Files} (hd : HashData) {g : Hash} (h : hasBlock backend files g = true) :
    hasBlock backend (fileStoreData backend files hd) g = true := by
  simp only [hasBlock, blockExists, blockFilename_eq] at h ⊢
  unfold fileStoreData setMetadataToFileMeta
  rcases blockFilename backend hd.hash with _ | filename
  · exact h
  · rcases hd.data with _ | data
    · exact h
    · exact isSome_update _ _ (isSome_update _ _ h)

/-! ## The hashs that are needed -/

/-- The hashs of a list that are not `present`, each once and in the order of the list; `seen` are not needed any more. -/
def neededHashs (present : Hash → Bool) (seen : List Hash) : List Hash → List Hash
  | [] => []
  | g :: hs =>
    if present g = false ∧ g ∉ seen then g :: neededHashs present (g :: seen) hs else neededHashs present seen hs

/-- A hash is in a list of hash data when it is one of their hashs. -/
theorem hashDataIsInList_eq {hd : HashData} {g : Hash} (hhd : hd.hash = some g.bytes) {needed : List HashData}
    {seen : List Hash} (h : HashsAre needed seen) : hashDataIsInList hd needed = decide (g ∈ seen) := by
  induction needed generalizing seen with
  | nil =>
    have hnil : seen = [] := by simpa [HashsAre] using h
    simp [hashDataIsInList, hnil]
  | cons e needed ih =>
    rcases seen with _ | ⟨g', seen⟩
    · simp [HashsAre] at h
    · simp only [HashsAre, List.map_cons, List.cons.injEq] at h
      have hrest : hashDataIsInList hd needed = decide (g ∈ seen) := ih h.2
      rw [hashDataIsInList] at hrest ⊢
      rw [List.any_cons, hrest, hhd, h.1]
      simp only [compareTwoHashs_eq_zero, List.mem_cons, Bool.decide_or]

/-- The loop of a backend that builds the list: each hash whose block is not there goes once to the front. -/
def prependAbsent (isThere : Option Bytes → Bool) (needed : List HashData) : List HashData → List HashData
  | [] => needed
  | hashData :: head =>
    if isThere hashData.hash = false ∧ hashDataIsInList hashData needed = false then
      prependAbsent isThere (copyOnlyHash hashData :: needed) head
    else prependAbsent isThere needed head

/-- The loop finds the hashs that are needed, the last one first. -/
theorem prependAbsent_eq (isThere : Option Bytes → Bool) {list : List HashData} :
    ∀ {hs : List Hash} {needed : List HashData} {seen : List Hash}, HashsAre list hs → HashsAre needed seen →
      HashsAre (prependAbsent isThere needed list)
        ((neededHashs (fun g => isThere (some g.bytes)) seen hs).reverse ++ seen) := by
  induction list with
  | nil =>
    intro hs needed seen h hneeded
    have hnil : hs = [] := by simpa [HashsAre] using h
    simpa [hnil, prependAbsent, neededHashs] using hneeded
  | cons hd list ih =>
    intro hs needed seen h hneeded
    rcases hs with _ | ⟨g, hs⟩
    · simp [HashsAre] at h
    · simp only [HashsAre, List.map_cons, List.cons.injEq] at h
      simp only [prependAbsent, neededHashs, h.1, hashDataIsInList_eq h.1 hneeded, decide_eq_false_iff_not]
      split
      · have hcopy : (copyOnlyHash hd).hash = some g.bytes := by
          simp [copyOnlyHash, newHashDataAsIs, h.1, List.take_of_length_le (le_of_eq g.length_eq)]
        have hcons : HashsAre (copyOnlyHash hd :: needed) (g :: seen) := by
          simp only [HashsAre, List.map_cons, hcopy] at hneeded ⊢
          rw [hneeded]
        simpa using ih h.2 hcons
      · exact ih h.2 hneeded

/-- In front of an empty list, turned over, it has exactly the hashs that are needed. -/
theorem reverse_prependAbsent_eq (isThere : Option Bytes → Bool) {list : List HashData} {hs : List Hash} (h : HashsAre list hs) :
    HashsAre (prependAbsent isThere [] list).reverse (neededHashs (fun g => isThere (some g.bytes)) [] hs) := by
  have hloop := prependAbsent_eq isThere h (show HashsAre [] [] from rfl)
  rw [List.append_nil] at hloop
  rw [HashsAre, List.map_reverse, show List.map _ _ = _ from hloop, List.map_reverse, List.reverse_reverse]

/-- The loop of `file_build_needed_hash_list` asks for files. -/
theorem prependNeeded_eq_prependAbsent (backend : FileBackend) (files : Files) (list : List HashData) : ∀ needed,
    prependNeeded backend files needed list = prependAbsent (blockExists backend files) needed list := by
  induction list with
  | nil => exact fun _ => rfl
  | cons hd list ih =>
    intro needed
    simp only [prependNeeded, prependAbsent, ih]

/-- The loop of `minio_build_needed_hash_list` asks for keys in the bucket. -/
theorem prependMissing_eq_prependAbsent (objects : Objects) (bucket : Option CString) (list : List HashData) : ∀ needed,
    prependMissing objects bucket needed list =
      prependAbsent (fun hash => checkKeyExistInBucket objects bucket (hashToString hash)) needed list := by
  induction list with
  | nil => exact fun _ => rfl
  | cons hd list ih =>
    intro needed
    simp only [prependMissing, prependAbsent, ih]

/-- The list that the backend builds has the hashs that are needed. -/
theorem fileBuildNeededHashList_eq (backend : FileBackend) (files : Files) {list : List HashData} {hs : List Hash}
    (h : HashsAre list hs) :
    HashsAre (fileBuildNeededHashList backend files list)
      (neededHashs (hasBlock backend files) [] hs) := by
  unfold fileBuildNeededHashList
  rw [prependNeeded_eq_prependAbsent]
  exact reverse_prependAbsent_eq (blockExists backend files) h

/-- A hash that is asked for and not needed is present. -/
theorem present_or_needed (present : Hash → Bool) {hs : List Hash} :
    ∀ {seen : List Hash} {g : Hash}, g ∈ hs → present g = true ∨ g ∈ seen ∨ g ∈ neededHashs present seen hs := by
  induction hs with
  | nil => exact fun h => absurd h List.not_mem_nil
  | cons g' hs ih =>
    intro seen g hg
    unfold neededHashs
    split
    · rcases List.mem_cons.mp hg with rfl | hg
      · exact Or.inr (Or.inr List.mem_cons_self)
      · rcases @ih (g' :: seen) g hg with h | h | h
        · exact Or.inl h
        · rcases List.mem_cons.mp h with rfl | h
          · exact Or.inr (Or.inr List.mem_cons_self)
          · exact Or.inr (Or.inl h)
        · exact Or.inr (Or.inr (List.mem_cons_of_mem _ h))
    · rename_i hcond
      rcases List.mem_cons.mp hg with rfl | hg
      · by_cases hp : present g = true
        · exact Or.inl hp
        · exact Or.inr (Or.inl (by simpa [hp] using hcond))
      · exact ih hg

/-- What is needed was asked for, not seen and not present. -/
theorem of_mem_neededHashs {present : Hash → Bool} {hs : List Hash} :
    ∀ {seen : List Hash} {g : Hash}, g ∈ neededHashs present seen hs → g ∈ hs ∧ g ∉ seen ∧ present g = false := by
  induction hs with
  | nil => exact fun h => absurd h List.not_mem_nil
  | cons g' hs ih =>
    intro seen g hg
    unfold neededHashs at hg
    split at hg
    · rename_i hcond
      rcases List.mem_cons.mp hg with rfl | hg
      · exact ⟨List.mem_cons_self, hcond.2, hcond.1⟩
      · obtain ⟨hmem, hseen, hpresent⟩ := ih hg
        exact ⟨List.mem_cons_of_mem _ hmem, fun h => hseen (List.mem_cons_of_mem _ h), hpresent⟩
    · obtain ⟨hmem, hrest⟩ := ih hg
      exact ⟨List.mem_cons_of_mem _ hmem, hrest⟩

/-- The hashs that are needed are those that were asked for, not seen and not present. -/
theorem mem_neededHashs {present : Hash → Bool} {hs seen : List Hash} {g : Hash} :
    g ∈ neededHashs present seen hs ↔ g ∈ hs ∧ g ∉ seen ∧ present g = false := by
  refine ⟨of_mem_neededHashs, fun ⟨hmem, hseen, hpresent⟩ => ?_⟩
  rcases present_or_needed present hmem with hthere | hin | hneeded
  · rw [hpresent] at hthere
    cases hthere
  · exact absurd hin hseen
  · exact hneeded

/-- They stand in the order in which they are first asked for, so each stands there once. -/
theorem pairwise_neededHashs (present : Hash → Bool) {hs : List Hash} :
    ∀ seen, (neededHashs present seen hs).Pairwise fun a b => hs.idxOf a < hs.idxOf b := by
  induction hs with
  | nil => exact fun _ => List.Pairwise.nil
  | cons g hs ih =>
    intro seen
    -- behind the first hash the positions are counted from it
    have hlater : ∀ seen', (∀ a ∈ neededHashs present seen' hs, a ≠ g) →
        (neededHashs present seen' hs).Pairwise fun a b => (g :: hs).idxOf a < (g :: hs).idxOf b := by
      intro seen' hne
      refine (ih seen').imp_of_mem fun {a b} ha hb hlt => ?_
      rw [List.idxOf_cons_ne hs (hne a ha).symm, List.idxOf_cons_ne hs (hne b hb).symm]
      exact Nat.succ_lt_succ hlt
    unfold neededHashs
    split
    · have hne : ∀ a ∈ neededHashs present (g :: seen) hs, a ≠ g := fun a ha heq =>
        (mem_neededHashs.mp ha).2.1 (heq ▸ List.mem_cons_self)
      refine List.pairwise_cons.mpr ⟨fun a ha => ?_, hlater _ hne⟩
      rw [List.idxOf_cons_self, List.idxOf_cons_ne hs (hne a ha).symm]
      exact Nat.succ_pos _
    · rename_i hcond
      exact hlater _ fun a ha heq => hcond (heq ▸ ⟨(mem_neededHashs.mp ha).2.2, (mem_neededHashs.mp ha).2.1⟩)

end Sauvegarde
