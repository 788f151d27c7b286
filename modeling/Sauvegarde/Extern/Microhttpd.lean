import Sauvegarde.Extern.Glib

/-!
# The arguments and the headers of a request

What libcurl sends of a URL, and how libmicrohttpd takes the arguments out of it: what stands behind the first question mark is cut
at every ampersand and each piece at its first equals sign; in keys and values a plus sign becomes a blank and `%XX` a byte. A header
line is cut at its first colon, and looked up as an argument is.
-/

namespace Sauvegarde

/-- A character that libcurl accepts in no URL: a blank or a control character. -/
def curlRefuses (c : UInt8) : Bool := c ≤ 32 || c = 127

/-- What libcurl sends of a URL: what stands behind a number sign is left out, and other characters are sent as they are. -/
def curlTarget (url : Bytes) : Option Bytes := if url.any curlRefuses then none else some (url.takeWhile (· ≠ 35))

/-- The value of a hexadecimal digit. -/
def hexValue (c : UInt8) : Option Nat :=
  if 48 ≤ c ∧ c ≤ 57 then some (c.toNat - 48)
  else if 65 ≤ c ∧ c ≤ 70 then some (c.toNat - 55)
  else if 97 ≤ c ∧ c ≤ 102 then some (c.toNat - 87)
  else none

/-- `MHD_http_unescape`: a percent sign without two digits behind it stays. -/
def httpUnescape : Bytes → Bytes
  | [] => []
  | [a] => [a]
  | [a, b] => [a, b]
  | c :: a :: b :: rest =>
    if c = 37 then
      match hexValue a, hexValue b with
      | some high, some low => UInt8.ofNat (high * 16 + low) :: httpUnescape rest
      | _, _ => c :: httpUnescape (a :: b :: rest)
    else c :: httpUnescape (a :: b :: rest)

/-- A plus sign becomes a blank. -/
def plusToSpace (c : UInt8) : UInt8 := if c = 43 then 32 else c

/-- The text of a key or a value. -/
def unescapeArgument (text : Bytes) : CString := CString.ofBytes (httpUnescape (text.map plusToSpace))

/-- An argument; without an equals sign it has no value. -/
def parseArgument (piece : Bytes) : CString × Option CString :=
  if 61 ∈ piece then
    (unescapeArgument (piece.takeWhile (· ≠ 61)), some (unescapeArgument ((piece.dropWhile (· ≠ 61)).drop 1)))
  else (unescapeArgument piece, none)

/-- `MHD_parse_arguments_`. -/
def parseArguments (text : Bytes) : List (CString × Option CString) := (text.splitOn 38).map parseArgument

/-- The arguments of a URL. -/
def urlArguments (url : Bytes) : List (CString × Option CString) := parseArguments ((url.dropWhile (· ≠ 63)).drop 1)

/-- A letter without regard to its case. -/
def lowerCase (c : UInt8) : UInt8 := if 65 ≤ c ∧ c ≤ 90 then c + 32 else c

/-- The first argument with a key, whose case does not count. -/
def firstArgument (arguments : List (CString × Option CString)) (key : CString) : Option (Option CString) :=
  (arguments.find? fun argument => argument.1.bytes.map lowerCase = key.bytes.map lowerCase).map Prod.snd

/-- `MHD_lookup_connection_value`, of the arguments. -/
def mhdLookupConnectionValue (arguments : List (CString × Option CString)) (key : CString) : Option CString :=
  (firstArgument arguments key).bind id

/-- The name and the value of a header line; the blanks before the value are not part of it. -/
def parseHeader (line : Bytes) : CString × Option CString :=
  (CString.ofBytes (line.takeWhile (· ≠ 58)),
    some (CString.ofBytes (((line.dropWhile (· ≠ 58)).drop 1).dropWhile fun c => c = 32 || c = 9)))

/-- A header line with a value that does not begin with a blank. -/
theorem parseHeader_eq {name value : Bytes} (hname : ∀ c ∈ name, c ≠ 58) (hblank : value.head? ≠ some 32)
    (htab : value.head? ≠ some 9) :
    parseHeader (name ++ str ": " ++ value) = (CString.ofBytes name, some (CString.ofBytes value)) := by
  have hclear : ∀ c ∈ name, decide (c ≠ 58) = true := fun c hc => by simpa using hname c hc
  have hstart : value.dropWhile (fun c => c = 32 || c = 9) = value := by
    cases value with
    | nil => rfl
    | cons c value =>
      rw [List.dropWhile_cons_of_neg]
      simpa [not_or] using And.intro hblank htab
  rw [parseHeader, show str ": " = [58, 32] by decide, List.append_assoc, List.takeWhile_append_of_pos hclear,
    List.dropWhile_append_of_pos hclear]
  simp [hstart]

/-! ## Arguments put together -/

/-- A text without a percent sign is left as it is. -/
theorem httpUnescape_of_not_mem {text : Bytes} (h : (37 : UInt8) ∉ text) : httpUnescape text = text := by
  induction text using httpUnescape.induct with
  | case1 => rfl
  | case2 => rfl
  | case3 => rfl
  | case4 a b rest => exact absurd List.mem_cons_self h
  | case5 a b rest => exact absurd List.mem_cons_self h
  | case6 c a b rest hc ih =>
    unfold httpUnescape
    rw [if_neg hc, ih fun hmem => h (List.mem_cons_of_mem _ hmem)]

/-- Arguments that stand behind an ampersand come behind the arguments before it. -/
theorem parseArguments_append (first second : Bytes) :
    parseArguments (first ++ 38 :: second) = parseArguments first ++ parseArguments second := by
  unfold parseArguments
  rw [List.splitOn_eq_splitOnP, List.splitOn_eq_splitOnP, List.splitOn_eq_splitOnP, List.splitOnP_append_cons _ _ (by simp),
    List.map_append]

/-- An argument with a key of letters and a value without an ampersand. -/
theorem parseArguments_single {key : CString} {value : Bytes} (hkey : ∀ c ∈ key.bytes, c ≠ 37 ∧ c ≠ 38 ∧ c ≠ 43 ∧ c ≠ 61)
    (hvalue : (38 : UInt8) ∉ value) :
    parseArguments (key.bytes ++ 61 :: value) = [(key, some (unescapeArgument value))] := by
  have hsplit : (key.bytes ++ 61 :: value).splitOn 38 = [key.bytes ++ 61 :: value] := by
    rw [List.splitOn_eq_splitOnP]
    refine List.splitOnP_eq_singleton fun c hc => ?_
    rcases List.mem_append.mp hc with hc | hc
    · simpa using (hkey c hc).2.1
    · rcases List.mem_cons.mp hc with rfl | hc
      · decide
      · simpa using fun heq : c = 38 => hvalue (heq ▸ hc)
  have hclear : ∀ c ∈ key.bytes, decide (c ≠ 61) = true := fun c hc => by simpa using (hkey c hc).2.2.2
  have hplus : key.bytes.map plusToSpace = key.bytes :=
    (List.map_congr_left fun c hc => if_neg (hkey c hc).2.2.1).trans (List.map_id' _)
  have hname : unescapeArgument key.bytes = key := by
    unfold unescapeArgument
    rw [hplus, httpUnescape_of_not_mem fun hmem => (hkey 37 hmem).1 rfl, CString.ofBytes_bytes]
  rw [parseArguments, hsplit, List.map_singleton, parseArgument, if_pos (by simp), List.takeWhile_append_of_pos hclear,
    List.dropWhile_append_of_pos hclear]
  simp [hname]

/-- A character of an encoded text is no ampersand and no percent sign. -/
theorem base64_char_argument {c : UInt8} (h : Base64.InAlphabet c) : c ≠ 37 ∧ c ≠ 38 :=
  h.forall (P := fun c => c ≠ 37 ∧ c ≠ 38) (by decide) (by decide)

/-- It is sent. -/
theorem base64_char_sent {c : UInt8} (h : Base64.InAlphabet c) : curlRefuses c = false ∧ c ≠ 35 :=
  h.forall (P := fun c => curlRefuses c = false ∧ c ≠ 35) (by decide) (by decide)

/-- A text that can be sent is sent before another one. -/
theorem curlTarget_behind {first second : Bytes} (h : ∀ c ∈ first, curlRefuses c = false ∧ c ≠ 35) :
    curlTarget (first ++ second) = (curlTarget second).map (first ++ ·) := by
  have hfirst : first.any curlRefuses = false := List.any_eq_false.mpr fun c hc => by simp [(h c hc).1]
  unfold curlTarget
  rw [List.any_append, hfirst, Bool.false_or, List.takeWhile_append_of_pos fun c hc => decide_eq_true (h c hc).2]
  split_ifs <;> rfl

/-- Of texts of which the second can be sent, the first decides what is sent. -/
theorem curlTarget_append {first second : Bytes} (h : ∀ c ∈ second, curlRefuses c = false ∧ c ≠ 35) :
    curlTarget (first ++ second) = if first.any curlRefuses then none
      else some (if 35 ∈ first then first.takeWhile (· ≠ 35) else first ++ second) := by
  have hsecond : second.any curlRefuses = false := List.any_eq_false.mpr fun c hc => by simp [(h c hc).1]
  have hwhole : second.takeWhile (· ≠ 35) = second := List.takeWhile_eq_self_iff.mpr fun c hc => decide_eq_true (h c hc).2
  have hfirst : first.takeWhile (· ≠ 35) = first ↔ 35 ∉ first :=
    List.takeWhile_eq_self_iff.trans ⟨fun hall hmark => absurd rfl (of_decide_eq_true (hall 35 hmark)),
      fun hmark c hc => decide_eq_true fun heq : c = 35 => hmark (heq ▸ hc)⟩
  unfold curlTarget
  rw [List.any_append, hsecond, Bool.or_false, List.takeWhile_append, hwhole]
  by_cases hmark : 35 ∈ first
  · rw [if_pos hmark, if_neg fun hlength =>
      hfirst.mp ((List.takeWhile_prefix _).eq_of_length hlength) hmark]
  · rw [if_neg hmark, if_pos (congrArg List.length (hfirst.mpr hmark))]

/-- An encoded text that is the value of an argument is decoded to what was encoded exactly when there is no plus sign in it. -/
theorem decode_unescapeArgument_encode (s : CString) :
    CString.ofBytes (Base64.decode (unescapeArgument (Base64.encode s.bytes)).bytes) = s ↔
      (43 : UInt8) ∉ Base64.encode s.bytes := by
  have halphabet : ∀ c ∈ Base64.encode s.bytes, Base64.InAlphabet c := fun c hc => Base64.inAlphabet_of_mem_encode hc
  have hpercent : (37 : UInt8) ∉ (Base64.encode s.bytes).map plusToSpace := by
    intro hmem
    obtain ⟨c, hc, heq⟩ := List.mem_map.mp hmem
    unfold plusToSpace at heq
    split at heq
    · exact absurd heq (by decide)
    · exact (base64_char_argument (halphabet c hc)).1 heq
  have hzero : ∀ c ∈ (Base64.encode s.bytes).map plusToSpace, c ≠ 0 := by
    intro d hmem hd
    obtain ⟨c, hc, heq⟩ := List.mem_map.mp hmem
    unfold plusToSpace at heq
    split at heq
    · exact absurd (heq.trans hd) (by decide)
    · exact (base64_char (halphabet c hc)).1 (heq.trans hd)
  rw [unescapeArgument, httpUnescape_of_not_mem hpercent, CString.bytes_ofBytes hzero]
  constructor
  · -- a plus sign that became a blank is passed over, and the decoder gives out less
    intro hback hplus
    have hcount : (((Base64.encode s.bytes).map plusToSpace).countP fun c => (Base64.rank c).isSome) <
        (Base64.encode s.bytes).length := by
      rw [← List.length_map plusToSpace]
      refine Nat.lt_of_le_of_ne List.countP_le_length fun hall => ?_
      have hblank := List.countP_eq_length.mp hall 32 (List.mem_map.mpr ⟨43, hplus, rfl⟩)
      exact absurd hblank (by decide)
    have hshort := Base64.length_decode_lt hcount
    have hlength : s.bytes.length ≤ (Base64.decode ((Base64.encode s.bytes).map plusToSpace)).length := by
      refine (le_of_eq (congrArg (fun text : CString => text.bytes.length) hback.symm)).trans ?_
      exact (List.takeWhile_sublist _).length_le
    omega
  · intro hplus
    have hsame : (Base64.encode s.bytes).map plusToSpace = Base64.encode s.bytes :=
      (List.map_congr_left fun c hc => if_neg fun heq : c = 43 => hplus (heq ▸ hc)).trans (List.map_id' _)
    rw [hsame, Base64.decode_encode, CString.ofBytes_bytes]

end Sauvegarde
