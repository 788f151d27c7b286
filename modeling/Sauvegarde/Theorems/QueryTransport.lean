import Sauvegarde.Restore.Request
import Sauvegarde.Server.ListRequest

/-!
# From the query of a restore to the query of the server

The pattern and the dates are sent in base64, as values of arguments of a URL. The names before them stand in it as they are.
-/

namespace Sauvegarde

/-- The request is sent, and the server reads the pattern and the dates that were given. -/
def ArrivesWhole (user : UserInfos) (opt : RestoreOptions) : Prop :=
  ∃ target, curlTarget (filesRequest (getUserInfos user opt)) = some target ∧
    let query := receivedQuery (urlArguments target)
    query.filename = some opt.filename ∧ query.date = opt.date ∧ query.afterdate = opt.afterdate ∧
      query.beforedate = opt.beforedate

/-- What stands in the URL before the pattern: the names, as they are. -/
def nameArguments (user : UserInfos) : Bytes :=
  str "hostname=" ++ user.hostname.bytes ++ str "&uid=" ++ user.uid.bytes ++ str "&gid=" ++ user.gid.bytes ++ str "&owner=" ++
    user.owner.bytes ++ str "&group=" ++ user.group.bytes

/-- The names hold no blank and no control character. -/
def NamesPass (user : UserInfos) : Prop := ∀ c ∈ nameArguments user, curlRefuses c = false

/-- A text that goes over the line as the value of a key. Should the names bring an argument with that key, before a number sign if
there is one among them, it is that one that is read. Else there is no plus sign in the base64 text, and no number sign before it. -/
def Transportable (user : UserInfos) (key : CString) (value : Option CString) : Prop :=
  match firstArgument (parseArguments ((nameArguments user).takeWhile (· ≠ 35))) key with
  | none => ∀ s ∈ value, (35 : UInt8) ∉ nameArguments user ∧ (43 : UInt8) ∉ Base64.encode s.bytes
  | some argument => argument.map (fun text => CString.ofBytes (Base64.decode text.bytes)) = value

namespace QueryTransportAux

/-- An argument with a key and a text for its value, if there is one. -/
def argumentOf (key : CString) (value : Option CString) : List (CString × Bytes) := (value.map fun text => (key, text.bytes)).toList

/-- The arguments behind the names. -/
def ownArguments (opt : RestoreOptions) : List (CString × Bytes) :=
  argumentOf (CString.lit "filename") (encodeToBase64 (some opt.filename)) ++
    argumentOf (CString.lit "date") (encodeToBase64 opt.date) ++
    argumentOf (CString.lit "afterdate") (encodeToBase64 opt.afterdate) ++
    argumentOf (CString.lit "beforedate") (encodeToBase64 opt.beforedate) ++
    argumentOf (CString.lit "latest") (some (CString.lit (if opt.latest then "True" else "False")))

/-- The text of arguments, an ampersand before each. -/
def argumentsText (arguments : List (CString × Bytes)) : Bytes :=
  arguments.flatMap fun argument => 38 :: (argument.1.bytes ++ 61 :: argument.2)

/-- A field is an argument more. -/
theorem addOnFieldToRequest_eq (request : Bytes) (key : String) (hkey : (CString.lit key).bytes = str key) (value : Option CString) :
    addOnFieldToRequest request (str key) value = request ++ argumentsText (argumentOf (CString.lit key) value) := by
  unfold addOnFieldToRequest
  rcases value with _ | value
  · simp [argumentsText, argumentOf]
  · have hamp : str "&" = [38] := by decide
    have heq : str "=" = [61] := by decide
    simp [argumentsText, argumentOf, hkey, hamp, heq]

/-- The URL: a path, a question mark, the names and the arguments behind them. -/
theorem filesRequest_eq (user : UserInfos) (opt : RestoreOptions) :
    filesRequest (getUserInfos user opt) = str "/File/List.json" ++ 63 :: (nameArguments user ++ argumentsText (ownArguments opt)) := by
  have hbase : makeBaseRequest (getUserInfos user opt) = str "/File/List.json" ++ 63 ::
      (nameArguments user ++ argumentsText (argumentOf (CString.lit "filename") (encodeToBase64 (some opt.filename)))) := by
    obtain ⟨encoded, hencoded⟩ : ∃ encoded, encodeToBase64 (some opt.filename) = some encoded := ⟨_, rfl⟩
    have hpath : str "/File/List.json?hostname=" = str "/File/List.json" ++ 63 :: str "hostname=" := by decide
    have hfield : str "&filename=" = 38 :: ((CString.lit "filename").bytes ++ [61]) := by decide
    simp [makeBaseRequest, getUserInfos, prepareQuery, printString, nameArguments, hencoded, argumentOf, argumentsText, hpath,
      hfield]
  unfold filesRequest addOnBooleanFieldToRequest
  simp only [hbase]
  rw [addOnFieldToRequest_eq _ "date" (by decide), addOnFieldToRequest_eq _ "afterdate" (by decide),
    addOnFieldToRequest_eq _ "beforedate" (by decide), addOnFieldToRequest_eq _ "latest" (by decide)]
  simp only [ownArguments, argumentsText, List.flatMap_append, List.append_assoc, List.cons_append]
  rfl

/-- The arguments that are read: those of the names, and behind them each of the others. -/
theorem parseArguments_argumentsText {arguments : List (CString × Bytes)}
    (hkeys : ∀ argument ∈ arguments, ∀ c ∈ argument.1.bytes, c ≠ 37 ∧ c ≠ 38 ∧ c ≠ 43 ∧ c ≠ 61)
    (hvalues : ∀ argument ∈ arguments, (38 : UInt8) ∉ argument.2) :
    ∀ first : Bytes, parseArguments (first ++ argumentsText arguments) =
      parseArguments first ++ arguments.map fun argument => (argument.1, some (unescapeArgument argument.2)) := by
  induction arguments with
  | nil => simp [argumentsText]
  | cons argument arguments ih =>
    intro first
    obtain ⟨hkey, hkeys⟩ := List.forall_mem_cons.mp hkeys
    obtain ⟨hvalue, hvalues⟩ := List.forall_mem_cons.mp hvalues
    have hrest := ih hkeys hvalues (first ++ 38 :: (argument.1.bytes ++ 61 :: argument.2))
    rw [parseArguments_append, parseArguments_single hkey hvalue] at hrest
    rw [argumentsText, List.flatMap_cons, ← List.append_assoc, List.map_cons]
    rw [argumentsText] at hrest
    rw [hrest, List.append_assoc]
    rfl

/-- An argument is looked for among those of the names, and then among the others. -/
theorem firstArgument_append (first second : List (CString × Option CString)) (key : CString) :
    firstArgument (first ++ second) key = (firstArgument first key).or (firstArgument second key) := by
  unfold firstArgument
  rw [List.find?_append]
  cases first.find? _ <;> rfl

/-- What is found of a key among the others: its value. -/
theorem firstArgument_own (opt : RestoreOptions) {key : CString} {value : Option CString}
    (hkey : (key, value) ∈ [(CString.lit "filename", some opt.filename), (CString.lit "date", opt.date),
      (CString.lit "afterdate", opt.afterdate), (CString.lit "beforedate", opt.beforedate)]) :
    firstArgument ((ownArguments opt).map fun argument => (argument.1, some (unescapeArgument argument.2))) key =
      value.map fun s => some (unescapeArgument (Base64.encode s.bytes)) := by
  have hnone : encodeToBase64 none = none := rfl
  obtain ⟨filename, date, afterdate, beforedate, latest⟩ := opt
  simp only [List.mem_cons, Prod.mk.injEq, List.not_mem_nil, or_false] at hkey
  rcases hkey with ⟨rfl, hvalue⟩ | ⟨rfl, hvalue⟩ | ⟨rfl, hvalue⟩ | ⟨rfl, hvalue⟩
  all_goals
    rw [hvalue]
    rcases date with _ | date <;> rcases afterdate with _ | afterdate <;> rcases beforedate with _ | beforedate <;>
      simp +decide [firstArgument, ownArguments, argumentOf, encodeToBase64_some, hnone, base64Text]

/-- An encoded argument has its key, and no ampersand in its text. -/
theorem mem_argumentOf_encodeToBase64 {key : CString} {value : Option CString} {argument : CString × Bytes}
    (h : argument ∈ argumentOf key (encodeToBase64 value)) : argument.1 = key ∧ (38 : UInt8) ∉ argument.2 := by
  rcases value with _ | value
  · exact absurd h List.not_mem_nil
  · rw [encodeToBase64_some] at h
    rw [List.mem_singleton.mp h]
    exact ⟨rfl, fun hmem => (base64_char_argument (Base64.inAlphabet_of_mem_encode hmem)).2 rfl⟩

/-- So has the argument that is not encoded. -/
theorem mem_argumentOf_latest {latest : Bool} {argument : CString × Bytes}
    (h : argument ∈ argumentOf (CString.lit "latest") (some (CString.lit (if latest then "True" else "False")))) :
    argument.1 = CString.lit "latest" ∧ (38 : UInt8) ∉ argument.2 := by
  rw [List.mem_singleton.mp h]
  cases latest
  · exact ⟨rfl, by decide⟩
  · exact ⟨rfl, by decide⟩

/-- The keys of the arguments of a query. -/
def ownKeys : List CString :=
  [CString.lit "filename", CString.lit "date", CString.lit "afterdate", CString.lit "beforedate", CString.lit "latest"]

theorem mem_ownArguments {opt : RestoreOptions} {argument : CString × Bytes} (h : argument ∈ ownArguments opt) :
    argument.1 ∈ ownKeys ∧ (38 : UInt8) ∉ argument.2 := by
  simp only [ownArguments, List.mem_append] at h
  rcases h with (((hfilename | hdate) | hafterdate) | hbeforedate) | hlatest
  · obtain ⟨hkey, hvalue⟩ := mem_argumentOf_encodeToBase64 hfilename
    exact ⟨by simp [hkey, ownKeys], hvalue⟩
  · obtain ⟨hkey, hvalue⟩ := mem_argumentOf_encodeToBase64 hdate
    exact ⟨by simp [hkey, ownKeys], hvalue⟩
  · obtain ⟨hkey, hvalue⟩ := mem_argumentOf_encodeToBase64 hafterdate
    exact ⟨by simp [hkey, ownKeys], hvalue⟩
  · obtain ⟨hkey, hvalue⟩ := mem_argumentOf_encodeToBase64 hbeforedate
    exact ⟨by simp [hkey, ownKeys], hvalue⟩
  · obtain ⟨hkey, hvalue⟩ := mem_argumentOf_latest hlatest
    exact ⟨by simp [hkey, ownKeys], hvalue⟩

/-- The keys hold no character with a meaning in a URL. -/
theorem ownKeys_letters {key : CString} (hkey : key ∈ ownKeys) : ∀ c ∈ key.bytes, c ≠ 37 ∧ c ≠ 38 ∧ c ≠ 43 ∧ c ≠ 61 := by
  have hletters : ∀ key ∈ ownKeys, (key.bytes.all fun c => c ≠ 37 && c ≠ 38 && c ≠ 43 && c ≠ 61) = true := by decide
  intro c hc
  simpa [and_assoc] using List.all_eq_true.mp (hletters key hkey) c hc

/-- The keys and the encoded texts are sent as they are. -/
theorem sent_argumentsText (opt : RestoreOptions) : ∀ c ∈ argumentsText (ownArguments opt), curlRefuses c = false ∧ c ≠ 35 := by
  have hkeys : ∀ key ∈ ownKeys, (key.bytes.all fun c => curlRefuses c = false && c ≠ 35) = true := by decide
  have hlatest : ∀ latest : Bool, ((CString.lit (if latest then "True" else "False")).bytes.all
      fun c => curlRefuses c = false && c ≠ 35) = true := by decide
  have hencoded : ∀ {key : CString} {value : Option CString} {argument : CString × Bytes},
      argument ∈ argumentOf key (encodeToBase64 value) → ∀ c ∈ argument.2, curlRefuses c = false ∧ c ≠ 35 := by
    intro key value argument h c hc
    rcases value with _ | value
    · exact absurd h List.not_mem_nil
    · rw [encodeToBase64_some] at h
      rw [List.mem_singleton.mp h] at hc
      exact base64_char_sent (Base64.inAlphabet_of_mem_encode hc)
  have hvalues : ∀ argument ∈ ownArguments opt, ∀ c ∈ argument.2, curlRefuses c = false ∧ c ≠ 35 := by
    intro argument h
    simp only [ownArguments, List.mem_append] at h
    rcases h with (((hfilename | hdate) | hafterdate) | hbeforedate) | hargument
    · exact hencoded hfilename
    · exact hencoded hdate
    · exact hencoded hafterdate
    · exact hencoded hbeforedate
    · intro c hc
      rw [List.mem_singleton.mp hargument] at hc
      simpa using List.all_eq_true.mp (hlatest opt.latest) c hc
  intro c hc
  obtain ⟨argument, hargument, hc⟩ := List.mem_flatMap.mp hc
  rcases List.mem_cons.mp hc with rfl | hc
  · decide
  rcases List.mem_append.mp hc with hc | hc
  · simpa using List.all_eq_true.mp (hkeys _ (mem_ownArguments hargument).1) c hc
  rcases List.mem_cons.mp hc with rfl | hc
  · decide
  · exact hvalues argument hargument c hc

/-- Exactly names without blanks and control characters let the request be sent, and the arguments behind a number sign among them
are not sent. -/
theorem curlTarget_filesRequest (user : UserInfos) (opt : RestoreOptions) (target : Bytes) :
    curlTarget (filesRequest (getUserInfos user opt)) = some target ↔ NamesPass user ∧
      target = str "/File/List.json" ++ 63 :: (if 35 ∈ nameArguments user then (nameArguments user).takeWhile (· ≠ 35)
        else nameArguments user ++ argumentsText (ownArguments opt)) := by
  have hpath : ∀ c ∈ str "/File/List.json" ++ [63], curlRefuses c = false ∧ c ≠ 35 := by
    have hall : ((str "/File/List.json" ++ [63]).all fun c => curlRefuses c = false && c ≠ 35) = true := by decide
    intro c hc
    simpa using List.all_eq_true.mp hall c hc
  have hpass : (nameArguments user).any curlRefuses = true ↔ ¬NamesPass user := by
    rw [← Bool.not_eq_false, List.any_eq_false, NamesPass]
    simp only [Bool.not_eq_true]
  rw [filesRequest_eq, List.append_cons, curlTarget_behind hpath, curlTarget_append (sent_argumentsText opt)]
  by_cases hnames : NamesPass user
  · rw [if_neg (fun h => hpass.mp h hnames), Option.map_some, Option.some.injEq, eq_comm, and_iff_right hnames,
      List.append_assoc, List.singleton_append]
  · rw [if_pos (hpass.mpr hnames), Option.map_none]
    exact ⟨fun h => absurd h.symm (Option.some_ne_none target), fun h => absurd h.1 hnames⟩

/-- The arguments of what is sent: those of the names, and the others behind them when there is no number sign in the names. -/
theorem urlArguments_sent (user : UserInfos) (opt : RestoreOptions) {target : Bytes}
    (h : curlTarget (filesRequest (getUserInfos user opt)) = some target) :
    urlArguments target = parseArguments ((nameArguments user).takeWhile (· ≠ 35)) ++
      if 35 ∈ nameArguments user then []
      else (ownArguments opt).map fun argument => (argument.1, some (unescapeArgument argument.2)) := by
  have hpath : ∀ c ∈ str "/File/List.json", decide (c ≠ 63) = true := List.all_eq_true.mp (by decide)
  rw [((curlTarget_filesRequest user opt target).mp h).2, urlArguments, List.dropWhile_append_of_pos hpath]
  simp only [List.dropWhile_cons, ne_eq, not_true_eq_false, decide_false, Bool.false_eq_true, if_false, List.drop_succ_cons,
    List.drop_zero]
  split_ifs with hmark
  · rw [List.append_nil]
  · have hnames : (nameArguments user).takeWhile (· ≠ 35) = nameArguments user :=
      List.takeWhile_eq_self_iff.mpr fun c hc => decide_eq_true fun heq : c = 35 => hmark (heq ▸ hc)
    rw [hnames]
    exact parseArguments_argumentsText (fun argument hargument => ownKeys_letters (mem_ownArguments hargument).1)
      (fun argument hargument => (mem_ownArguments hargument).2) _

/-- A text arrives exactly when it is transportable. -/
theorem getArgumentValueFromKey_eq_iff (user : UserInfos) (opt : RestoreOptions) {target : Bytes}
    (h : curlTarget (filesRequest (getUserInfos user opt)) = some target) {key : CString} {value : Option CString}
    (hkey : (key, value) ∈ [(CString.lit "filename", some opt.filename), (CString.lit "date", opt.date),
      (CString.lit "afterdate", opt.afterdate), (CString.lit "beforedate", opt.beforedate)]) :
    getArgumentValueFromKey (urlArguments target) key true = value ↔ Transportable user key value := by
  unfold getArgumentValueFromKey mhdLookupConnectionValue Transportable
  rw [urlArguments_sent user opt h, firstArgument_append]
  rcases firstArgument (parseArguments ((nameArguments user).takeWhile (· ≠ 35))) key with _ | argument
  · by_cases hmark : 35 ∈ nameArguments user
    · rw [if_pos hmark]
      rcases value with _ | s <;> simp [firstArgument, hmark]
    · rw [if_neg hmark, firstArgument_own opt hkey]
      rcases value with _ | s
      · simp
      · simp [decode_unescapeArgument_encode, hmark]
  · simp

end QueryTransportAux

/-- The server reads the pattern and the dates that were given exactly when the names hold neither blanks nor control characters and
each of the texts is transportable. -/
theorem arrivesWhole_iff (user : UserInfos) (opt : RestoreOptions) :
    ArrivesWhole user opt ↔
      NamesPass user ∧ Transportable user (CString.lit "filename") (some opt.filename) ∧
        Transportable user (CString.lit "date") opt.date ∧ Transportable user (CString.lit "afterdate") opt.afterdate ∧
        Transportable user (CString.lit "beforedate") opt.beforedate := by
  have hreads : ∀ {target}, curlTarget (filesRequest (getUserInfos user opt)) = some target →
      ((receivedQuery (urlArguments target)).filename = some opt.filename ∧ (receivedQuery (urlArguments target)).date = opt.date ∧
        (receivedQuery (urlArguments target)).afterdate = opt.afterdate ∧
        (receivedQuery (urlArguments target)).beforedate = opt.beforedate ↔
      Transportable user (CString.lit "filename") (some opt.filename) ∧ Transportable user (CString.lit "date") opt.date ∧
        Transportable user (CString.lit "afterdate") opt.afterdate ∧
        Transportable user (CString.lit "beforedate") opt.beforedate) := fun {target} h => by
    unfold receivedQuery
    simp only
    rw [QueryTransportAux.getArgumentValueFromKey_eq_iff user opt h (by simp),
      QueryTransportAux.getArgumentValueFromKey_eq_iff user opt h (by simp),
      QueryTransportAux.getArgumentValueFromKey_eq_iff user opt h (by simp),
      QueryTransportAux.getArgumentValueFromKey_eq_iff user opt h (by simp)]
  constructor
  · rintro ⟨target, h, hquery⟩
    exact ⟨((QueryTransportAux.curlTarget_filesRequest user opt target).mp h).1, (hreads h).mp hquery⟩
  · rintro ⟨hpass, htexts⟩
    have h := (QueryTransportAux.curlTarget_filesRequest user opt _).mpr ⟨hpass, rfl⟩
    exact ⟨_, h, (hreads h).mpr htexts⟩

/-- A user and a host whose names are words. -/
def rootOnHost : UserInfos := ⟨CString.lit "host", CString.lit "0", CString.lit "0", CString.lit "root", CString.lit "root"⟩

/-- A name that ends with a tilde, in the third place of a group of three. -/
def tildeName : RestoreOptions := ⟨CString.lit "ab~", none, none, none, false⟩

/-- The server reads another pattern: the group of the plus sign is not complete any more. -/
theorem tildeName_doesNotArrive : ¬ ArrivesWhole rootOnHost tildeName := by
  rintro ⟨target, h, hfilename, _⟩
  rw [receivedQuery, QueryTransportAux.getArgumentValueFromKey_eq_iff rootOnHost tildeName h (by simp)] at hfilename
  have hnames : firstArgument (parseArguments ((nameArguments rootOnHost).takeWhile (· ≠ 35))) (CString.lit "filename") = none := by
    decide
  unfold Transportable at hfilename
  rw [hnames] at hfilename
  exact (hfilename _ rfl).2 (by decide)

end Sauvegarde
