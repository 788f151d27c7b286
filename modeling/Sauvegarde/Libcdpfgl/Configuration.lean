import Sauvegarde.Extern.KeyFile
import Sauvegarde.Libcdpfgl.Communique
import Sauvegarde.Libcdpfgl.Files

/-!
# Configuration files

The readers of configuration.c, each with what it gives when a key is not there or does not parse, and the server's part of the
configuration in options.c. The messages that are printed and the debug mode that only they depend on are left out.
-/

namespace Sauvegarde

/-! ## Names of groups and keys -/

def GN_CLIENT : Bytes := str "Client"
def GN_SERVER : Bytes := str "Server"
def KN_BLOCK_SIZE : Bytes := str "blocksize"
def KN_ADAPTIVE : Bytes := str "adaptive"
def KN_NOSCAN : Bytes := str "no-scan"
def KN_BUFFER_SIZE : Bytes := str "buffersize"
def KN_DIR_LIST : Bytes := str "directory-list"
def KN_EXC_LIST : Bytes := str "exclude-list"
def KN_CACHE_DIR : Bytes := str "cache-directory"
def KN_DB_NAME : Bytes := str "cache-db-name"
def KN_COMPRESSION_TYPE : Bytes := str "compression-type"
def KN_SERVER_IP : Bytes := str "server-ip"
def KN_SERVER_PORT : Bytes := str "server-port"
def KN_SERVER_METABACKEND : Bytes := str "server-backend-meta"
def KN_SERVER_DATABACKEND : Bytes := str "server-backend-data"

/-! ## Values -/

/-- How GLib reads the text of a value, as each type it is asked for: `none` is an error. -/
structure ValueReaders where
  getInt64 : Bytes → Option Int64
  getInteger : Bytes → Option Int32
  getBoolean : Bytes → Option Bool
  getString : Bytes → Option CString
  getStringList : Bytes → Option (List CString)

/-- `g_key_file_has_group`. -/
def gKeyFileHasGroup (keyfile : KeyFile) (group : Bytes) : Bool := keyfile.any fun g => g.1 = group

section

variable (readers : ValueReaders) (keyfile : KeyFile) (groupname keyname : Bytes)

/-- `read_int64_from_file`: the default is for a key that is not there. The number GLib gives with an error is zero. -/
def ValueReaders.readInt64FromFile (defValue : Int64) : Int64 :=
  match gKeyFileGetValue keyfile groupname keyname with
  | none => defValue
  | some value => (readers.getInt64 value).getD 0

/-- `read_int_from_file`. -/
def ValueReaders.readIntFromFile (defValue : Int32) : Int32 :=
  match gKeyFileGetValue keyfile groupname keyname with
  | none => defValue
  | some value => (readers.getInteger value).getD 0

/-- `read_boolean_from_file`. -/
def ValueReaders.readBooleanFromFile : Bool :=
  match gKeyFileGetValue keyfile groupname keyname with
  | none => false
  | some value => (readers.getBoolean value).getD false

/-- `read_string_from_file`. -/
def ValueReaders.readStringFromFile : Option CString := (gKeyFileGetValue keyfile groupname keyname).bind readers.getString

/-- `normalize_directory`, where there is a path. -/
def normalizePath (homeDir path : CString) : CString := CString.ofBytes (normalizeDirectory homeDir.bytes path.bytes)

/-- `convert_gchar_array_to_GSList`: the paths of the array go to the end of the list. -/
def convertGcharArrayToGSList (homeDir : CString) (array : Option (List CString)) (firstList : List CString) : List CString :=
  firstList ++ (array.getD []).map (normalizePath homeDir)

/-- `read_list_from_file`. -/
def ValueReaders.readListFromFile (homeDir : CString) : List CString :=
  convertGcharArrayToGSList homeDir ((gKeyFileGetValue keyfile groupname keyname).bind readers.getStringList) []

end

/-! ## The server -/

/-- `srv_conf_t`. -/
structure SrvConf where
  ip : Option CString
  port : Int32
  backendMetaLabel : Option CString
  backendDataLabel : Option CString
deriving DecidableEq

/-- `new_srv_conf_t`. -/
def newSrvConf : SrvConf := ⟨none, 0, none, none⟩

/-- `SERVER_PORT`. -/
def SERVER_PORT : Int32 := 5468

/-- The ports that are taken. -/
def isPort (port : Int32) : Bool := port > 1024 && port < 65535

/-- `read_from_group_server`: a port that is not taken is left at zero. -/
def readFromGroupServer (readers : ValueReaders) (keyfile : KeyFile) : SrvConf :=
  if gKeyFileHasGroup keyfile GN_SERVER then
    let port := readers.readIntFromFile keyfile GN_SERVER KN_SERVER_PORT SERVER_PORT
    { port := if isPort port then port else newSrvConf.port
      ip := readers.readStringFromFile keyfile GN_SERVER KN_SERVER_IP
      backendMetaLabel := readers.readStringFromFile keyfile GN_SERVER KN_SERVER_METABACKEND
      backendDataLabel := readers.readStringFromFile keyfile GN_SERVER KN_SERVER_DATABACKEND }
  else newSrvConf

/-- `manage_opt_srv_conf`: what was there before is dropped. -/
def manageOptSrvConf (_srvConf : Option SrvConf) (readers : ValueReaders) (keyfile : KeyFile) : Option SrvConf :=
  some (readFromGroupServer readers keyfile)

/-- `make_connexion_string` of communique.c. -/
def makeConnexionString (srvConf : Option SrvConf) : Option CString :=
  match srvConf with
  | none => none
  | some srvConf =>
    match srvConf.ip with
    | none => none
    | some ip =>
      if isPort srvConf.port then
        some (CString.ofBytes (str "http://" ++ ip.bytes ++ str ":" ++ Decimal.printInt srvConf.port.toInt))
      else none

/-! ## What is read -/

/-- A number that is read is positive exactly when a key that is there has such a number. -/
theorem ValueReaders.readInt64FromFile_pos_iff (readers : ValueReaders) (keyfile : KeyFile) (groupname keyname : Bytes) {defValue : Int64}
    (hdefault : 1 ≤ defValue) : 1 ≤ readers.readInt64FromFile keyfile groupname keyname defValue ↔
      ∀ value ∈ gKeyFileGetValue keyfile groupname keyname, ∃ number ∈ readers.getInt64 value, 1 ≤ number := by
  unfold ValueReaders.readInt64FromFile
  cases gKeyFileGetValue keyfile groupname keyname with
  | none => simpa using hdefault
  | some value =>
    cases hnumber : readers.getInt64 value with
    | none => simp [hnumber]
    | some number => simp [hnumber]

/-- A port that is read is taken exactly when a key that is there has such a port. -/
theorem ValueReaders.isPort_readIntFromFile_iff (readers : ValueReaders) (keyfile : KeyFile) (groupname keyname : Bytes) {defValue : Int32}
    (hdefault : isPort defValue = true) : isPort (readers.readIntFromFile keyfile groupname keyname defValue) = true ↔
      ∀ value ∈ gKeyFileGetValue keyfile groupname keyname, ∃ number ∈ readers.getInteger value, isPort number = true := by
  have hzero : isPort 0 = false := by decide
  unfold ValueReaders.readIntFromFile
  cases gKeyFileGetValue keyfile groupname keyname with
  | none => simpa using hdefault
  | some value =>
    cases hnumber : readers.getInteger value with
    | none => simp [hnumber, hzero]
    | some number => simp [hnumber]

/-- The server has a port exactly when its group is there, and gives a port that is taken or none. -/
theorem isPort_readFromGroupServer_iff (readers : ValueReaders) (keyfile : KeyFile) :
    isPort (readFromGroupServer readers keyfile).port = true ↔ gKeyFileHasGroup keyfile GN_SERVER = true ∧
      ∀ value ∈ gKeyFileGetValue keyfile GN_SERVER KN_SERVER_PORT, ∃ number ∈ readers.getInteger value, isPort number = true := by
  have hzero : isPort newSrvConf.port = false := by decide
  rw [← readers.isPort_readIntFromFile_iff keyfile GN_SERVER KN_SERVER_PORT (show isPort SERVER_PORT = true by decide)]
  unfold readFromGroupServer
  split_ifs with hgroup
  · simp only [hgroup, true_and]
    split_ifs with hport
    · rfl
    · simp [hzero, hport]
  · simp [hgroup, hzero]

/-- A group that has a key is there. -/
theorem hasGroup_of_getValue {keyfile : KeyFile} {group key value : Bytes} (h : gKeyFileGetValue keyfile group key = some value) :
    gKeyFileHasGroup keyfile group = true := by
  simp only [gKeyFileGetValue, Option.map_eq_some_iff, Option.bind_eq_some_iff] at h
  obtain ⟨_, ⟨g, hfind, _⟩, _⟩ := h
  have hgroup := List.find?_some hfind
  exact List.any_eq_true.mpr ⟨g, List.mem_of_find?_eq_some hfind, hgroup⟩

/-- The server has an address exactly when its group gives one. -/
theorem ip_readFromGroupServer_ne_none_iff (readers : ValueReaders) (keyfile : KeyFile) :
    (readFromGroupServer readers keyfile).ip ≠ none ↔
      ∃ value ∈ gKeyFileGetValue keyfile GN_SERVER KN_SERVER_IP, readers.getString value ≠ none := by
  unfold readFromGroupServer
  split_ifs with hgroup
  · simp only [ValueReaders.readStringFromFile, ne_eq, Option.bind_eq_none_iff, not_forall, exists_prop, Option.mem_def]
  · constructor
    · intro h
      exact absurd rfl h
    · rintro ⟨value, hvalue, _⟩
      exact absurd (hasGroup_of_getValue hvalue) hgroup

/-- There is a connexion string exactly when there are an address and a port that is taken. -/
theorem makeConnexionString_ne_none_iff (srvConf : Option SrvConf) :
    makeConnexionString srvConf ≠ none ↔ ∃ conf, srvConf = some conf ∧ conf.ip ≠ none ∧ isPort conf.port = true := by
  unfold makeConnexionString
  cases srvConf with
  | none => simp
  | some conf =>
    cases hip : conf.ip with
    | none => simp [hip]
    | some ip => simp [hip]

end Sauvegarde
