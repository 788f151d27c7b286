import Sauvegarde.Libcdpfgl.Query
import Sauvegarde.Libcdpfgl.Strings

/-!
# The request of a restore

How cdpfglrestore asks the server for the files that match a pattern: the query it fills, and the URL it makes of that. The names
of the host, the user and the group come from the system or the command line and stand in the URL as they are.
-/

namespace Sauvegarde

/-- What is known of the user, `prepare_query`: the host, and the user and the group by number and name. -/
structure UserInfos where
  hostname : CString
  uid : CString
  gid : CString
  owner : CString
  group : CString

/-- The options that choose the files to be restored or listed. -/
structure RestoreOptions where
  filename : CString
  date : Option CString
  afterdate : Option CString
  beforedate : Option CString
  latest : Bool

/-- `prepare_query`. -/
def prepareQuery (user : UserInfos) : QueryT :=
  ⟨some user.hostname, some user.uid, some user.gid, some user.owner, some user.group, none, none, none, none, false⟩

/-- `get_user_infos`: the texts are encoded. -/
def getUserInfos (user : UserInfos) (opt : RestoreOptions) : QueryT :=
  { prepareQuery user with
    filename := encodeToBase64 (some opt.filename)
    date := encodeToBase64 opt.date
    afterdate := encodeToBase64 opt.afterdate
    beforedate := encodeToBase64 opt.beforedate
    latest := opt.latest }

/-- `add_on_field_to_request`. -/
def addOnFieldToRequest (request field : Bytes) (value : Option CString) : Bytes :=
  match value with
  | none => request
  | some value => request ++ str "&" ++ field ++ str "=" ++ value.bytes

/-- `add_on_boolean_field_to_request`. -/
def addOnBooleanFieldToRequest (request field : Bytes) (value : Bool) : Bytes :=
  addOnFieldToRequest request field (some (CString.lit (if value then "True" else "False")))

/-- `make_base_request`. -/
def makeBaseRequest (query : QueryT) : Bytes :=
  str "/File/List.json?hostname=" ++ printString query.hostname ++ str "&uid=" ++ printString query.uid ++ str "&gid=" ++
    printString query.gid ++ str "&owner=" ++ printString query.owner ++ str "&group=" ++ printString query.group ++
    str "&filename=" ++ printString query.filename

/-- The URL that `get_files_from_server` gets. -/
def filesRequest (query : QueryT) : Bytes :=
  let request := makeBaseRequest query
  let request := addOnFieldToRequest request (str "date") query.date
  let request := addOnFieldToRequest request (str "afterdate") query.afterdate
  let request := addOnFieldToRequest request (str "beforedate") query.beforedate
  addOnBooleanFieldToRequest request (str "latest") query.latest

end Sauvegarde
