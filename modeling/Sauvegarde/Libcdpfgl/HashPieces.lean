import Sauvegarde.Libcdpfgl.Hashs

/-!
# Pieces of a list of hashs

`make_hash_data_list_from_string` on any text, with the places where it leaves a piece: the length of the text of a hash is that of
the piece less two, without a sign, and the text begins one character behind the piece. C leaves open which of the two arguments of
`g_strndup` is computed first, and both strip blanks. What goes wrong has no result.
-/

namespace Sauvegarde

/-- `g_strchug` on what begins at an offset of a string: the blanks there are taken out. None behind the end of the string. -/
def gStrchugAt (string : Bytes) (offset : Nat) : Option Bytes :=
  if offset ≤ string.length then some (string.take offset ++ (string.drop offset).dropWhile isSpace) else none

/-- `strlen (g_strchug (hashs[i])) - 2`, with what is left of the piece: none when the length is less than zero. -/
def chuggedLength (piece : Bytes) : Option (Bytes × Nat) :=
  let piece := piece.dropWhile isSpace
  if piece.length < 2 then none else some (piece, piece.length - 2)

/-- `a_hash` of one piece: the length is computed first, or the place where the text begins. -/
def pieceText (lengthFirst : Bool) (piece : Bytes) : Option Bytes :=
  if lengthFirst then
    (chuggedLength piece).bind fun (piece, n) => (gStrchugAt piece 1).map fun piece => (piece.drop 1).take n
  else
    (gStrchugAt piece 1).bind fun piece => (chuggedLength piece).map fun (piece, n) => (piece.drop 1).take n

/-- The loop of `make_hash_data_list_from_string` over the pieces. -/
def hashDataOfPieces (lengthFirst : Bool) : List Bytes → Option (List HashData)
  | [] => some []
  | piece :: pieces =>
    (pieceText lengthFirst piece).bind fun aHash => (hashDataOfPieces lengthFirst pieces).map fun hashList =>
      newHashDataAsIs none 0 (gBase64Decode (some (CString.ofBytes aHash))) COMPRESS_NONE_TYPE 0 :: hashList

/-- The pieces of a list of hashs: an empty text has none. -/
def hashPieces (hashString : Option CString) : List Bytes :=
  match hashString with
  | none => []
  | some s => if s.bytes = [] then [] else s.bytes.splitOn 44

/-- `make_hash_data_list_from_string` on any text. -/
def hashDataListFromString (lengthFirst : Bool) (hashString : Option CString) : Option (List HashData) :=
  hashDataOfPieces lengthFirst (hashPieces hashString)

/-- What stands between the first character of a piece and its last, blanks in front left out. When the length is computed first,
blanks behind the first character count for it. -/
def betweenQuotes (lengthFirst : Bool) (piece : Bytes) : Bytes :=
  let inner := (piece.dropWhile isSpace).drop 1
  (if lengthFirst then inner.dropWhile isSpace else inner).take (inner.length - 1)

/-- A piece that holds a hash: two characters at least, and between them the base64 text of as many bytes as a hash has. -/
structure HoldsHash (lengthFirst : Bool) (piece : Bytes) : Prop where
  long : 2 ≤ (piece.dropWhile isSpace).length
  whole : (Base64.decode (CString.ofBytes (betweenQuotes lengthFirst piece)).bytes).length = HASH_LEN

/-- A list of hashs that are there and have the length of a hash. -/
def WholeHashs (list : List HashData) : Prop := ∀ hd ∈ list, ∃ hash, hd.hash = some hash ∧ hash.length = HASH_LEN

/-! ## Blanks -/

/-- A blank is not in the base64 alphabet. -/
theorem rank_of_isSpace {c : UInt8} (h : isSpace c = true) : Base64.rank c = none := by
  simp only [isSpace, Bool.or_eq_true, decide_eq_true_eq] at h
  rcases h with (((rfl | rfl) | rfl) | rfl) | rfl <;> rfl

/-- A blank is not zero. -/
theorem ne_zero_of_isSpace {c : UInt8} (h : isSpace c = true) : c ≠ 0 := by
  rintro rfl
  exact absurd h (by decide)

/-- Blanks in front of a text change nothing of what is decoded. -/
theorem decode_blanks_append {blanks : Bytes} (h : ∀ c ∈ blanks, isSpace c = true) (text : Bytes) :
    Base64.decode (CString.ofBytes (blanks ++ text)).bytes = Base64.decode (CString.ofBytes text).bytes := by
  have hcut : (CString.ofBytes (blanks ++ text)).bytes = blanks ++ (CString.ofBytes text).bytes :=
    List.takeWhile_append_of_pos fun c hc => by simpa using ne_zero_of_isSpace (h c hc)
  rw [hcut, Base64.decode_append_of_rank fun c hc => rank_of_isSpace (h c hc)]

/-- A text is the blanks in front of it and the rest. -/
theorem exists_blanks (text : Bytes) : ∃ blanks, (∀ c ∈ blanks, isSpace c = true) ∧ text = blanks ++ text.dropWhile isSpace :=
  ⟨text.takeWhile isSpace, fun _ hc => List.mem_takeWhile_imp hc, List.takeWhile_append_dropWhile.symm⟩

/-- The rest has no blanks in front. -/
theorem dropWhile_isSpace_idem (text : Bytes) : (text.dropWhile isSpace).dropWhile isSpace = text.dropWhile isSpace := by
  rw [List.dropWhile_eq_self_iff]
  intro hlen
  simpa using List.dropWhile_get_zero_not isSpace text hlen

/-! ## One piece -/

theorem gStrchugAt_cons (c : UInt8) (rest : Bytes) : gStrchugAt (c :: rest) 1 = some (c :: rest.dropWhile isSpace) := by
  simp [gStrchugAt]

theorem gStrchugAt_nil : gStrchugAt [] 1 = none := rfl

/-- The length of a piece of two characters or more, blanks in front left out. -/
theorem chuggedLength_of_le {piece : Bytes} (h : 2 ≤ (piece.dropWhile isSpace).length) :
    chuggedLength piece = some (piece.dropWhile isSpace, (piece.dropWhile isSpace).length - 2) := if_neg (Nat.not_lt.mpr h)

theorem chuggedLength_of_lt {piece : Bytes} (h : (piece.dropWhile isSpace).length < 2) : chuggedLength piece = none := if_pos h

/-- When the length is computed first, the text of a piece that is long enough stands between its first and last character. -/
theorem pieceText_lengthFirst {piece : Bytes} (h : 2 ≤ (piece.dropWhile isSpace).length) :
    pieceText true piece = some (betweenQuotes true piece) := by
  unfold betweenQuotes
  rw [pieceText, if_pos rfl, chuggedLength_of_le h]
  generalize piece.dropWhile isSpace = chugged at h
  obtain ⟨c, inner, rfl⟩ := List.exists_cons_of_length_pos (show 0 < chugged.length by omega)
  simp [gStrchugAt_cons]

/-- When the place is computed first, the same is decoded. -/
theorem pieceText_placeFirst (piece : Bytes) :
    (∃ aHash, pieceText false piece = some aHash ∧ 2 ≤ (piece.dropWhile isSpace).length ∧
      Base64.decode (CString.ofBytes aHash).bytes = Base64.decode (CString.ofBytes (betweenQuotes false piece)).bytes) ∨
    (pieceText false piece = none ∧ ((piece.dropWhile isSpace).length < 2 ∨
      Base64.decode (CString.ofBytes (betweenQuotes false piece)).bytes = [])) := by
  unfold betweenQuotes
  rw [pieceText, if_neg (by simp)]
  rcases piece with _ | ⟨c, rest⟩
  · exact Or.inr ⟨rfl, Or.inl (show 0 < 2 by omega)⟩
  rw [gStrchugAt_cons, Option.bind_some]
  by_cases hc : isSpace c = true
  · -- blanks in front of the piece: what is stripped behind them is stripped at the front
    have hsame : (c :: rest.dropWhile isSpace).dropWhile isSpace = (c :: rest).dropWhile isSpace := by
      rw [List.dropWhile_cons_of_pos hc, List.dropWhile_cons_of_pos hc, dropWhile_isSpace_idem]
    by_cases hlong : 2 ≤ ((c :: rest).dropWhile isSpace).length
    · rw [chuggedLength_of_le (by rwa [hsame]), hsame]
      refine Or.inl ⟨_, rfl, hlong, ?_⟩
      simp only [Bool.false_eq_true, if_false, List.length_drop]
      rfl
    · rw [chuggedLength_of_lt (by rw [hsame]; omega)]
      exact Or.inr ⟨rfl, Or.inl (by omega)⟩
  · have hself : ∀ tail : Bytes, (c :: tail).dropWhile isSpace = c :: tail := fun tail => List.dropWhile_cons_of_neg hc
    obtain ⟨blanks, hblanks, hrest⟩ := exists_blanks rest
    rcases htext : rest.dropWhile isSpace with _ | ⟨d, text⟩
    · -- nothing but blanks behind the first character
      rw [chuggedLength_of_lt (by rw [hself]; exact Nat.lt_succ_self 1)]
      refine Or.inr ⟨rfl, Or.inr ?_⟩
      have hall : ∀ b ∈ rest.take (rest.length - 1), isSpace b = true := fun b hb => by
        rw [htext, List.append_nil] at hrest
        exact hblanks b (hrest ▸ List.mem_of_mem_take hb)
      have hnone := decode_blanks_append hall []
      rw [List.append_nil] at hnone
      simp only [hself, Bool.false_eq_true, if_false, List.drop_succ_cons, List.drop_zero, hnone]
      rfl
    · rw [chuggedLength_of_le (by rw [hself]; simp), hself]
      refine Or.inl ⟨_, rfl, by rw [hself, hrest, htext]; simp; omega, ?_⟩
      have hbetween : rest.take (rest.length - 1) = blanks ++ (d :: text).take text.length := by
        rw [hrest, htext, List.length_append, List.length_cons,
          show blanks.length + (text.length + 1) - 1 = blanks.length + text.length by omega, List.take_length_add_append]
      simp only [hself, Bool.false_eq_true, if_false, List.drop_succ_cons, List.drop_zero, hbetween,
        decode_blanks_append hblanks, List.length_cons]
      rfl

/-- A hash is made of a piece exactly when the piece holds one. -/
theorem holdsHash_iff {lengthFirst : Bool} {piece : Bytes} : HoldsHash lengthFirst piece ↔
    ∃ aHash, pieceText lengthFirst piece = some aHash ∧
      (Base64.decode (CString.ofBytes aHash).bytes).length = HASH_LEN := by
  cases lengthFirst with
  | true =>
    by_cases hlong : 2 ≤ (piece.dropWhile isSpace).length
    · rw [pieceText_lengthFirst hlong]
      refine ⟨fun h => ⟨_, rfl, h.whole⟩, ?_⟩
      rintro ⟨aHash, heq, hwhole⟩
      exact ⟨hlong, Option.some.inj heq ▸ hwhole⟩
    · refine iff_of_false (fun h => hlong h.long) ?_
      rintro ⟨aHash, heq, -⟩
      rw [pieceText, if_pos rfl, chuggedLength_of_lt (by omega)] at heq
      exact absurd heq (by simp)
  | false =>
    obtain ⟨aHash, heq, hlong, hdecode⟩ | ⟨hnone, hbad⟩ := pieceText_placeFirst piece
    · rw [heq]
      refine ⟨fun h => ⟨aHash, rfl, hdecode ▸ h.whole⟩, ?_⟩
      rintro ⟨aHash', heq', hwhole⟩
      exact ⟨hlong, hdecode ▸ Option.some.inj heq' ▸ hwhole⟩
    · rw [hnone]
      refine iff_of_false (fun h => ?_) (by simp)
      rcases hbad with hshort | hempty
      · exact absurd h.long (by omega)
      · have hlen := h.whole
        rw [hempty] at hlen
        exact absurd hlen (by decide)

/-- A piece that is long enough, blanks in front left out, for its text; when the place is computed first, blanks behind the first
character do not count. -/
def LongPiece (lengthFirst : Bool) (piece : Bytes) : Prop :=
  2 ≤ ((if lengthFirst then piece else piece.take 1 ++ (piece.drop 1).dropWhile isSpace).dropWhile isSpace).length

/-- A text is taken out of a piece exactly when the piece is long enough. -/
theorem pieceText_ne_none {lengthFirst : Bool} {piece : Bytes} :
    pieceText lengthFirst piece ≠ none ↔ LongPiece lengthFirst piece := by
  have hchugged : ∀ text : Bytes, chuggedLength text ≠ none ↔ 2 ≤ (text.dropWhile isSpace).length := fun text => by
    by_cases h : 2 ≤ (text.dropWhile isSpace).length
    · exact iff_of_true (by rw [chuggedLength_of_le h]; simp) h
    · exact iff_of_false (by rw [chuggedLength_of_lt (by omega)]; simp) h
  unfold LongPiece
  cases lengthFirst with
  | true =>
    rw [if_pos rfl]
    by_cases hlong : 2 ≤ (piece.dropWhile isSpace).length
    · exact iff_of_true (by rw [pieceText_lengthFirst hlong]; simp) hlong
    · exact iff_of_false (by rw [pieceText, if_pos rfl, chuggedLength_of_lt (by omega)]; simp) hlong
  | false =>
    simp only [pieceText, Bool.false_eq_true, if_false]
    rcases piece with _ | ⟨c, rest⟩
    · exact iff_of_false (by simp [gStrchugAt_nil]) (by simp)
    · rw [gStrchugAt_cons, Option.bind_some, ← hchugged]
      exact not_congr Option.map_eq_none_iff

/-! ## The list -/

/-- A list is made of pieces exactly when all are long enough. -/
theorem hashDataOfPieces_ne_none {lengthFirst : Bool} (pieces : List Bytes) :
    hashDataOfPieces lengthFirst pieces ≠ none ↔ ∀ piece ∈ pieces, LongPiece lengthFirst piece := by
  induction pieces with
  | nil => simp [hashDataOfPieces]
  | cons piece pieces ih =>
    rw [List.forall_mem_cons, ← ih, ← pieceText_ne_none, hashDataOfPieces]
    rcases pieceText lengthFirst piece with _ | aHash
    · simp
    · simp [Option.map_eq_none_iff]

/-- The hashs of a list are whole exactly when each piece holds one. -/
theorem wholeHashs_hashDataOfPieces {lengthFirst : Bool} (pieces : List Bytes) :
    (∃ list, hashDataOfPieces lengthFirst pieces = some list ∧ WholeHashs list) ↔
      ∀ piece ∈ pieces, HoldsHash lengthFirst piece := by
  induction pieces with
  | nil =>
    refine iff_of_true ⟨[], rfl, fun hd hhd => absurd hhd List.not_mem_nil⟩ ?_
    exact fun piece hpiece => absurd hpiece List.not_mem_nil
  | cons piece pieces ih =>
    rw [List.forall_mem_cons, ← ih, holdsHash_iff]
    constructor
    · rintro ⟨list, hlist, hwhole⟩
      rw [hashDataOfPieces, Option.bind_eq_some_iff] at hlist
      obtain ⟨aHash, htext, hrest⟩ := hlist
      rw [Option.map_eq_some_iff] at hrest
      obtain ⟨hashList, hpieces, rfl⟩ := hrest
      obtain ⟨hfirst, hothers⟩ := List.forall_mem_cons.mp hwhole
      obtain ⟨hash, hhash, hlen⟩ := hfirst
      have hdecode : Base64.decode (CString.ofBytes aHash).bytes = hash := Option.some.inj hhash
      exact ⟨⟨aHash, htext, hdecode ▸ hlen⟩, hashList, hpieces, hothers⟩
    · rintro ⟨⟨aHash, htext, hlen⟩, hashList, hpieces, hothers⟩
      have hfirst : (newHashDataAsIs none 0 (gBase64Decode (some (CString.ofBytes aHash))) COMPRESS_NONE_TYPE 0).hash =
          some (Base64.decode (CString.ofBytes aHash).bytes) := rfl
      refine ⟨_, ?_, List.forall_mem_cons.mpr ⟨⟨_, hfirst, hlen⟩, hothers⟩⟩
      rw [hashDataOfPieces, htext, Option.bind_some, hpieces]
      rfl

/-- When nothing goes wrong the list is the one that was read before. -/
theorem hashDataOfPieces_eq_map {pieces : List Bytes} : ∀ {list : List HashData}, hashDataOfPieces false pieces = some list →
    list = pieces.map fun piece =>
      newHashDataAsIs none 0 (gBase64Decode (some (CString.ofBytes (stripQuotes piece)))) COMPRESS_NONE_TYPE 0 := by
  induction pieces with
  | nil => exact fun h => (Option.some.inj h).symm
  | cons piece pieces ih =>
    intro list h
    rw [hashDataOfPieces, Option.bind_eq_some_iff] at h
    obtain ⟨aHash, htext, hrest⟩ := h
    rw [Option.map_eq_some_iff] at hrest
    obtain ⟨hashList, hpieces, rfl⟩ := hrest
    have hstrip : betweenQuotes false piece = stripQuotes piece := by
      simp [betweenQuotes, stripQuotes, Nat.sub_sub]
    obtain ⟨aHash', htext', -, hdecode⟩ | ⟨hnone, -⟩ := pieceText_placeFirst piece
    · obtain rfl := Option.some.inj (htext.symm.trans htext')
      rw [List.map_cons, ← ih hpieces, gBase64Decode, gBase64Decode, Option.map_some, Option.map_some, hdecode, hstrip]
    · rw [hnone] at htext
      exact absurd htext (by simp)

theorem hashDataListFromString_eq {hashString : Option CString} {list : List HashData}
    (h : hashDataListFromString false hashString = some list) : list = makeHashDataListFromString hashString := by
  rw [hashDataOfPieces_eq_map h]
  unfold hashPieces makeHashDataListFromString
  rcases hashString with _ | s
  · rfl
  · simp only
    split <;> rfl

end Sauvegarde
