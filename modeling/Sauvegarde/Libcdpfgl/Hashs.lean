import Sauvegarde.Lib.Split
import Sauvegarde.Libcdpfgl.Compress

/-!
# Hashs

`hash_data_t` and the functions of hashs.c: comparing hashs, writing them in hexadecimal and in base64, lists of them.
-/

namespace Sauvegarde

/-- The length in bytes of a hash in binary form. -/
def HASH_LEN : Nat := 32

/-- A hash in binary form: the digest of a block. -/
@[ext] structure Hash where
  bytes : Bytes
  length_eq : bytes.length = HASH_LEN
deriving DecidableEq

/-- `hash_data_t`: a hash and the data it is the hash of. Pointers may be `NULL`; `read` is the length of the data as they are,
`uncmplen` their length before compression. -/
@[ext] structure HashData where
  hash : Option Bytes
  data : Option Bytes
  read : Int64
  cmptype : Int16
  uncmplen : Int64
deriving DecidableEq

/-- A length that is counted in a signed integer, as the program reads it elsewhere. -/
theorem length_int64 {n : Int64} {k : Nat} (h : n.toInt = k) :
    n.toUInt64 = UInt64.ofNat k ∧ n.toUInt64.toNat = k ∧ n.toNatClampNeg = k ∧ 0 ≤ n := by
  have hlt : (k : Int) < 2 ^ 63 := h ▸ n.toInt_lt
  have hnat : n.toUInt64.toNat = k := by
    have hbits : n.toBitVec.toInt = k := h
    rw [BitVec.toInt_eq_toNat_cond] at hbits
    rw [show n.toUInt64.toNat = n.toBitVec.toNat from rfl]
    split at hbits <;> omega
  refine ⟨?_, hnat, ?_, ?_⟩
  · rw [← hnat, UInt64.ofNat_toNat]
  · rw [Int64.toNatClampNeg, h, Int.toNat_natCast]
  · rw [Int64.le_iff_toInt_le, h]
    simp

/-- A block: a hash of the right length, data, and the length of the data. -/
structure HashData.IsBlock (hd : HashData) (h : Hash) (bytes : Bytes) : Prop where
  hash : hd.hash = some h.bytes
  data : hd.data = some bytes
  read : hd.read.toInt = bytes.length

/-! ## Comparing -/

/-- The loop of `compare_two_hashs` over the two hashs: the first bytes that differ decide. -/
def compareBytes : Nat → Bytes → Bytes → Int
  | 0, _, _ => 0
  | n + 1, a, b =>
    let first := a.headD 0
    let second := b.headD 0
    if first = second then compareBytes n a.tail b.tail else if first < second then -1 else 1

/-- `compare_two_hashs`: a hash that is there comes before one that is not. -/
def compareTwoHashs (a b : Option Bytes) : Int :=
  match a, b with
  | some a, some b => compareBytes HASH_LEN a b
  | some _, none => -1
  | none, some _ => 1
  | none, none => 0

/-- The loop finds no difference between two texts of that length only if they are equal. -/
theorem compareBytes_eq_zero (n : Nat) : ∀ a b : Bytes, a.length = n → b.length = n → (compareBytes n a b = 0 ↔ a = b) := by
  induction n with
  | zero =>
    intro a b ha hb
    rw [List.length_eq_zero_iff] at ha hb
    simp [compareBytes, ha, hb]
  | succ n ih =>
    intro a b ha hb
    obtain ⟨x, a, rfl⟩ := List.exists_cons_of_length_eq_add_one ha
    obtain ⟨y, b, rfl⟩ := List.exists_cons_of_length_eq_add_one hb
    have htail := ih a b (by simpa using ha) (by simpa using hb)
    simp only [compareBytes, List.headD_cons, List.tail_cons, List.cons.injEq]
    by_cases h : x = y
    · simp [h, htail]
    · by_cases h' : x < y
      · simp [h, h']
      · simp [h, h']

/-- Two hashs compare as equal exactly when they are. -/
theorem compareTwoHashs_eq_zero (g h : Hash) : compareTwoHashs (some g.bytes) (some h.bytes) = 0 ↔ g = h := by
  rw [Hash.ext_iff]
  exact compareBytes_eq_zero HASH_LEN g.bytes h.bytes g.length_eq h.length_eq

/-- `hash_data_is_in_list`. -/
def hashDataIsInList (hashData : HashData) (needed : List HashData) : Bool :=
  needed.any fun neededHashData => compareTwoHashs hashData.hash neededHashData.hash = 0

/-! ## Hexadecimal -/

/-- A digit of `%02x`. -/
def hexDigit (n : Nat) : UInt8 := if n < 10 then UInt8.ofNat (48 + n) else UInt8.ofNat (87 + n)

/-- A byte printed with `%02x`. -/
def hexOctet (b : UInt8) : Bytes := [hexDigit (b.toNat / 16), hexDigit (b.toNat % 16)]

/-- `int_value`: the value of a hexadecimal digit, zero for any other character. -/
def intValue (value : UInt8) : Nat :=
  if 48 ≤ value ∧ value ≤ 57 then value.toNat - 48
  else if 97 ≤ value ∧ value ≤ 102 then value.toNat - 87
  else 0

theorem hexDigit_ne_zero_all : ∀ n : Fin 16, hexDigit n ≠ 0 := by decide

/-- A hexadecimal digit is not the terminating zero. -/
theorem hexDigit_ne_zero {n : Nat} (h : n < 16) : hexDigit n ≠ 0 := hexDigit_ne_zero_all ⟨n, h⟩

theorem intValue_hexDigit_all : ∀ n : Fin 16, intValue (hexDigit n) = n.val := by decide

/-- A hexadecimal digit has the value it was written for. -/
theorem intValue_hexDigit {n : Nat} (h : n < 16) : intValue (hexDigit n) = n := intValue_hexDigit_all ⟨n, h⟩

/-- The two digits of a byte are not zero. -/
theorem ne_zero_of_mem_hexOctet {b c : UInt8} (h : c ∈ hexOctet b) : c ≠ 0 := by
  have hb := b.toNat_lt
  simp only [hexOctet, List.mem_cons, List.not_mem_nil, or_false] at h
  rcases h with rfl | rfl
  · exact hexDigit_ne_zero (by omega)
  · exact hexDigit_ne_zero (by omega)

/-- The text of bytes in hexadecimal. -/
def hexText (bytes : Bytes) : CString where
  bytes := bytes.flatMap hexOctet
  nulFree := fun c hc => by
    obtain ⟨b, _, hcb⟩ := List.mem_flatMap.mp hc
    exact ne_zero_of_mem_hexOctet hcb

/-- `hash_to_string`: two digits for each of the 32 bytes. -/
def hashToString (aHash : Option Bytes) : Option CString := aHash.map fun h => hexText (h.take HASH_LEN)

/-- The loop of `string_to_hash`: two characters make one byte. Past the end of the string the code reads the terminating zero,
which counts as zero. -/
def octetsOfHex : Nat → Bytes → Bytes
  | 0, _ => []
  | n + 1, s =>
    UInt8.ofNat (intValue (s.headD 0) * 16 + intValue (s.tail.headD 0)) :: octetsOfHex n s.tail.tail

/-- `string_to_hash`. -/
def stringToHash (strHash : Option CString) : Option Bytes := strHash.map fun s => octetsOfHex HASH_LEN s.bytes

/-- What was written in hexadecimal is read back. -/
theorem octetsOfHex_hexOctets (bytes : Bytes) : octetsOfHex bytes.length (bytes.flatMap hexOctet) = bytes := by
  induction bytes with
  | nil => rfl
  | cons b bytes ih =>
    have hb := b.toNat_lt
    have hoctet : intValue (hexDigit (b.toNat / 16)) * 16 + intValue (hexDigit (b.toNat % 16)) = b.toNat := by
      rw [intValue_hexDigit (by omega), intValue_hexDigit (by omega)]
      omega
    simp only [List.length_cons, List.flatMap_cons, hexOctet, List.cons_append, List.nil_append, octetsOfHex,
      List.headD_cons, List.tail_cons, hoctet, UInt8.ofNat_toNat, ih]

/-- A hash is read back from its hexadecimal form. -/
theorem stringToHash_hashToString (h : Hash) : stringToHash (hashToString (some h.bytes)) = some h.bytes := by
  have htake : h.bytes.take HASH_LEN = h.bytes := List.take_of_length_le (le_of_eq h.length_eq)
  have hoctets := octetsOfHex_hexOctets h.bytes
  rw [h.length_eq] at hoctets
  simp only [hashToString, stringToHash, Option.map_some, hexText, htake, hoctets]

/-- A hash in hexadecimal. -/
theorem hashToString_bytes (h : Hash) : hashToString (some h.bytes) = some (hexText h.bytes) := by
  rw [hashToString, Option.map_some, List.take_of_length_le (le_of_eq h.length_eq)]

/-- A hash is read back from that. -/
theorem stringToHash_hexText (h : Hash) : stringToHash (some (hexText h.bytes)) = some h.bytes := by
  rw [← hashToString_bytes, stringToHash_hashToString]

/-- A hash in hexadecimal is that of one hash only. -/
theorem hexText_inj {g h : Hash} (heq : hexText g.bytes = hexText h.bytes) : g = h := by
  have hg := stringToHash_hexText g
  rw [heq, stringToHash_hexText] at hg
  exact Hash.ext (Option.some.inj hg).symm

/-! ## Making hash data -/

/-- `new_hash_data_t_as_is`. -/
def newHashDataAsIs (data : Option Bytes) (read : Int64) (hash : Option Bytes) (cmptype : Int16) (uncmplen : Int64) :
    HashData := ⟨hash, data, read, cmptype, uncmplen⟩

/-- `new_hash_data_t`: the data are compressed when a compression is asked for. -/
def newHashData (z : Zlib) (data : Option Bytes) (sizeRead : Int64) (hash : Option Bytes) (cmptype : Int16) : HashData :=
  match data with
  | none => ⟨hash, none, sizeRead, cmptype, sizeRead⟩
  | some bytes =>
    if cmptype ≠ COMPRESS_NONE_TYPE then
      let compress := compressBuffer z bytes sizeRead.toUInt64.toUInt32 cmptype
      ⟨hash, compress.text, compress.len.toInt64, cmptype, sizeRead⟩
    else ⟨hash, some bytes, sizeRead, cmptype, sizeRead⟩

/-- `copy_only_hash`: the copy has no data. -/
def copyOnlyHash (src : HashData) : HashData :=
  newHashDataAsIs none src.read (src.hash.map fun h => h.take HASH_LEN) src.cmptype src.uncmplen

/-! ## Lists of hashs as text -/

/-- A text between double quotes. -/
def quoted (text : Bytes) : Bytes := 34 :: text ++ [34]

/-- A hash as `printf` writes its base64 text between quotes. -/
def quotedHash (hashData : HashData) : Bytes :=
  quoted (match gBase64Encode hashData.hash HASH_LEN with
    | none => str "(null)"
    | some s => s.bytes)

/-- The loop of `convert_hash_data_list_to_gchar`. -/
def appendQuotedHashs (oldList : Option Bytes) : List HashData → Option Bytes
  | [] => oldList
  | hashData :: head =>
    match oldList with
    | none => appendQuotedHashs (some (quotedHash hashData)) head
    | some old => appendQuotedHashs (some (old ++ str ", " ++ quotedHash hashData)) head

/-- `convert_hash_data_list_to_gchar`: `NULL` for an empty list. -/
def convertHashDataListToGchar (hashList : List HashData) : Option Bytes := appendQuotedHashs none hashList

/-- The characters `g_strchug` strips. -/
def isSpace (c : UInt8) : Bool := c = 32 || c = 9 || c = 10 || c = 12 || c = 13

theorem isSpace_space : ∀ c ∈ [(32 : UInt8)], isSpace c = true := List.all_eq_true.mp (by decide)

/-- One piece of a list of hashs, its quotes stripped. The source reads before a piece of fewer than two characters; such
pieces are in no list of hashs. -/
def stripQuotes (piece : Bytes) : Bytes :=
  ((piece.dropWhile isSpace).drop 1).take ((piece.dropWhile isSpace).length - 2)

/-- `make_hash_data_list_from_string`: the text is cut at its commas; an empty text has no pieces. -/
def makeHashDataListFromString (hashString : Option CString) : List HashData :=
  match hashString with
  | none => []
  | some s =>
    if s.bytes = [] then []
    else (s.bytes.splitOn 44).map fun piece =>
      newHashDataAsIs none 0 (gBase64Decode (some (CString.ofBytes (stripQuotes piece)))) COMPRESS_NONE_TYPE 0

/-- The text of a list of hashs after its first. -/
def moreHashs (hs : List Hash) : Bytes := hs.flatMap fun h => 44 :: (32 :: quoted (Base64.encode h.bytes))

/-- The text of a list of hashs; the empty list has none. -/
def hashsText : List Hash → Option Bytes
  | [] => none
  | g :: hs => some (quoted (Base64.encode g.bytes) ++ moreHashs hs)

/-- A hash is written as its base64 text between quotes. -/
theorem quotedHash_eq {hd : HashData} {h : Hash} (hh : hd.hash = some h.bytes) :
    quotedHash hd = quoted (Base64.encode h.bytes) := by
  rw [quotedHash, hh, gBase64Encode_of_length (le_of_eq h.length_eq)]
  rfl

/-- The loop appends the hashs, each after a comma and a space. -/
theorem appendQuotedHashs_some (list : List HashData) (old : Bytes) :
    appendQuotedHashs (some old) list = some (old ++ list.flatMap fun hd => 44 :: (32 :: quotedHash hd)) := by
  induction list generalizing old with
  | nil => simp [appendQuotedHashs]
  | cons hd list ih =>
    have hstr : str ", " = [44, 32] := by decide
    rw [appendQuotedHashs, ih, hstr, List.flatMap_cons]
    simp

/-- The text of a list of hashs: none for the empty list. -/
theorem convertHashDataListToGchar_eq {list : List HashData} {hs : List Hash}
    (h : list.map HashData.hash = hs.map fun h => some h.bytes) :
    convertHashDataListToGchar list = hashsText hs := by
  have hmore : ∀ {list : List HashData} {hs : List Hash}, list.map HashData.hash = hs.map (fun h => some h.bytes) →
      (list.flatMap fun hd => 44 :: (32 :: quotedHash hd)) = moreHashs hs := by
    intro list
    induction list with
    | nil =>
      intro hs h
      have hnil : hs = [] := by simpa using h
      simp [hnil, moreHashs]
    | cons hd list ih =>
      intro hs h
      rcases hs with _ | ⟨g, hs⟩
      · simp at h
      · simp only [List.map_cons, List.cons.injEq] at h
        rw [List.flatMap_cons, quotedHash_eq h.1, ih h.2, moreHashs, moreHashs, List.flatMap_cons]
  rcases list with _ | ⟨hd, list⟩
  · have hnil : hs = [] := by simpa using h
    rw [hnil]
    rfl
  · rcases hs with _ | ⟨g, hs⟩
    · simp at h
    · simp only [List.map_cons, List.cons.injEq] at h
      rw [convertHashDataListToGchar, appendQuotedHashs, quotedHash_eq h.1, appendQuotedHashs_some, hmore h.2, hashsText]

/-- The quotes around a base64 text are stripped, and the spaces before them. -/
theorem stripQuotes_quoted (spaces : Bytes) (hspaces : ∀ c ∈ spaces, isSpace c = true) (bytes : Bytes) :
    stripQuotes (spaces ++ quoted bytes) = bytes := by
  have hquote : (quoted bytes).dropWhile isSpace = quoted bytes := by
    rw [quoted, List.cons_append, List.dropWhile_cons]
    rfl
  have hlen : (quoted bytes).length - 2 = bytes.length := by simp [quoted]
  have hdrop : (quoted bytes).drop 1 = bytes ++ [34] := rfl
  rw [stripQuotes, List.dropWhile_append_of_pos hspaces, hquote, hlen, hdrop, List.take_left']
  rfl

/-- A quoted base64 text has no comma in it. -/
theorem comma_not_mem_quoted (bytes : Bytes) : (44 : UInt8) ∉ quoted (Base64.encode bytes) := by
  intro hmem
  simp only [quoted, List.cons_append, List.mem_cons, List.mem_append, List.not_mem_nil, or_false] at hmem
  rcases hmem with h | h | h
  · exact absurd h (by decide)
  · exact (base64_char (Base64.inAlphabet_of_mem_encode h)).2.2.1 rfl
  · exact absurd h (by decide)

/-- A quoted base64 text has no zero byte in it. -/
theorem ne_zero_of_mem_quoted {bytes : Bytes} {c : UInt8} (h : c ∈ quoted (Base64.encode bytes)) : c ≠ 0 := by
  simp only [quoted, List.cons_append, List.mem_cons, List.mem_append, List.not_mem_nil, or_false] at h
  rcases h with rfl | h | rfl
  · decide
  · exact (base64_char (Base64.inAlphabet_of_mem_encode h)).1
  · decide

/-- Neither has the text of a list of hashs. -/
theorem ne_zero_of_mem_hashs {g : Hash} {hs : List Hash} {c : UInt8} (h : c ∈ quoted (Base64.encode g.bytes) ++ moreHashs hs) :
    c ≠ 0 := by
  rcases List.mem_append.mp h with h | h
  · exact ne_zero_of_mem_quoted h
  · simp only [moreHashs, List.mem_flatMap, List.mem_cons] at h
    obtain ⟨k, _, rfl | rfl | h⟩ := h
    · decide
    · decide
    · exact ne_zero_of_mem_quoted h

/-- The hash of a piece of a list of hashs. -/
theorem gBase64Decode_piece (h : Hash) {spaces : Bytes} (hspaces : ∀ c ∈ spaces, isSpace c = true) :
    gBase64Decode (some (CString.ofBytes (stripQuotes (spaces ++ quoted (Base64.encode h.bytes))))) = some h.bytes := by
  rw [stripQuotes_quoted _ hspaces]
  exact (congrArg (fun s => gBase64Decode (some s)) (CString.ofBytes_bytes (base64Text h.bytes))).trans
    (gBase64Decode_base64Text h.bytes)

/-- A list of hashs is read back from its text, whatever spaces stand before it. -/
theorem makeHashDataListFromString_eq {s : CString} {spaces : Bytes} (hspaces : ∀ c ∈ spaces, isSpace c = true) (g : Hash)
    (hs : List Hash) (h : s.bytes = spaces ++ quoted (Base64.encode g.bytes) ++ moreHashs hs) :
    makeHashDataListFromString (some s) =
      (g :: hs).map fun h => newHashDataAsIs none 0 (some h.bytes) COMPRESS_NONE_TYPE 0 := by
  have hne : s.bytes ≠ [] := by simp [h, quoted]
  have hclear : ∀ {spaces : Bytes}, (∀ c ∈ spaces, isSpace c = true) → ∀ g : Hash,
      (44 : UInt8) ∉ spaces ++ quoted (Base64.encode g.bytes) := by
    intro spaces hspaces g hmem
    rcases List.mem_append.mp hmem with hmem | hmem
    · exact absurd (hspaces _ hmem) (by decide)
    · exact comma_not_mem_quoted _ hmem
  have hsplit : s.bytes.splitOn 44 = (spaces ++ quoted (Base64.encode g.bytes)) ::
      hs.map fun h => [32] ++ quoted (Base64.encode h.bytes) := by
    have hjoin : moreHashs hs = (hs.map fun h => [32] ++ quoted (Base64.encode h.bytes)).flatMap fun piece => 44 :: piece := by
      rw [moreHashs, List.flatMap_map]
      rfl
    rw [h, hjoin]
    refine Split.splitOn_flatMap (hclear hspaces g) _ fun piece hpiece => ?_
    obtain ⟨h, _, rfl⟩ := List.mem_map.mp hpiece
    exact hclear isSpace_space h
  simp only [makeHashDataListFromString, hne, if_false, hsplit, List.map_cons, List.map_map, gBase64Decode_piece g hspaces,
    List.cons.injEq, true_and, List.map_inj_left, Function.comp_apply]
  intro h _
  rw [gBase64Decode_piece h isSpace_space]

end Sauvegarde
