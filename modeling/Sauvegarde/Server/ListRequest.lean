import Sauvegarde.Extern.Microhttpd
import Sauvegarde.Libcdpfgl.Query

/-!
# A request for a list of files

The query that server.c reads from the arguments of a request.
-/

namespace Sauvegarde

/-- `get_argument_value_from_key`. -/
def getArgumentValueFromKey (arguments : List (CString × Option CString)) (key : CString) (encoded : Bool) : Option CString :=
  (mhdLookupConnectionValue arguments key).map fun value =>
    if encoded then CString.ofBytes (Base64.decode value.bytes) else value

/-- `get_boolean_argument_value_from_key`. -/
def getBooleanArgumentValueFromKey (arguments : List (CString × Option CString)) (key : CString) : Bool :=
  getArgumentValueFromKey arguments key false = some (CString.lit "True")

/-- The query of `get_a_list_of_files`. -/
def receivedQuery (arguments : List (CString × Option CString)) : QueryT where
  hostname := getArgumentValueFromKey arguments (CString.lit "hostname") false
  uid := getArgumentValueFromKey arguments (CString.lit "uid") false
  gid := getArgumentValueFromKey arguments (CString.lit "gid") false
  owner := getArgumentValueFromKey arguments (CString.lit "owner") false
  group := getArgumentValueFromKey arguments (CString.lit "group") false
  filename := getArgumentValueFromKey arguments (CString.lit "filename") true
  date := getArgumentValueFromKey arguments (CString.lit "date") true
  afterdate := getArgumentValueFromKey arguments (CString.lit "afterdate") true
  beforedate := getArgumentValueFromKey arguments (CString.lit "beforedate") true
  latest := getBooleanArgumentValueFromKey arguments (CString.lit "latest")

/-- `get_a_list_of_files`: the query that the backend gets, unless the request is malformed. -/
def getAListOfFiles (arguments : List (CString × Option CString)) : Option QueryT :=
  let query := receivedQuery arguments
  if query.hostname ≠ none ∧ query.uid ≠ none ∧ query.gid ≠ none ∧ query.owner ≠ none ∧ query.group ≠ none then some query
  else none

end Sauvegarde
