import Sauvegarde.Client.Carving
import Sauvegarde.Lib.LastWrite
import Sauvegarde.Libcdpfgl.Configuration

/-!
# The options of the client

`manage_command_line_options` of options.c: default values, the two configuration files, the command line. What GLib's parser has
left in the variables for the command line is given, as are the files that can be loaded. `none` is a program that was ended, for a
type of compression that is not allowed.
-/

namespace Sauvegarde

/-- `options_t` of the client. -/
structure ClientOptions where
  version : Bool
  dirnameList : List CString
  excludeList : List CString
  blocksize : Int64
  configfile : Option CString
  dircache : Option CString
  dbname : Option CString
  srvConf : Option SrvConf
  buffersize : Int32
  adaptive : Bool
  noscan : Bool
  cmptype : Int16
deriving DecidableEq

/-- The variables that `parse_command_line` fills. -/
structure CommandLine where
  version : Bool
  adaptive : Int32
  dirnameArray : Option (List CString)
  excludeArray : Option (List CString)
  configfile : Option CString
  blocksize : Int64
  buffersize : Int32
  dircache : Option CString
  dbname : Option CString
  ip : Option CString
  port : Int32
  cmptype : Int16
  noscan : Bool

/-- What they are initialised with, and stay where no option is given. -/
def CommandLine.empty : CommandLine := ⟨false, -1, none, none, none, 0, 0, none, none, none, 0, -1, false⟩

/-- Where the program runs: how GLib reads values, the home directory, the default configuration file that
`get_probable_etc_path` has found, and what each file is loaded as. -/
structure Surroundings where
  readers : ValueReaders
  homeDir : CString
  etcPath : Option CString
  load : CString → Option KeyFile

/-- `CLIENT_BLOCK_SIZE`. -/
def CLIENT_BLOCK_SIZE : Int64 := 16384

/-- `set_compression_type`. -/
def setCompressionType (opt : ClientOptions) (cmptype : Int16) : Option ClientOptions :=
  if isCompressTypeAllowed cmptype then some { opt with cmptype := cmptype } else none

/-- `set_option_str`. -/
def setOptionStr (cmdline optionStr : Option CString) : Option CString :=
  match cmdline with
  | some cmdline => some cmdline
  | none => optionStr

section

variable (env : Surroundings)

/-- `read_from_group_client`: the type of compression that is read is cut down to a `gshort`. -/
def readFromGroupClient (opt : ClientOptions) (keyfile : KeyFile) : Option ClientOptions :=
  if gKeyFileHasGroup keyfile GN_CLIENT then
    let opt := { opt with
      dirnameList := env.readers.readListFromFile keyfile GN_CLIENT KN_DIR_LIST env.homeDir
      excludeList := env.readers.readListFromFile keyfile GN_CLIENT KN_EXC_LIST env.homeDir
      blocksize := env.readers.readInt64FromFile keyfile GN_CLIENT KN_BLOCK_SIZE CLIENT_BLOCK_SIZE
      dircache := (env.readers.readStringFromFile keyfile GN_CLIENT KN_CACHE_DIR).map (normalizePath env.homeDir)
      dbname := env.readers.readStringFromFile keyfile GN_CLIENT KN_DB_NAME
      adaptive := env.readers.readBooleanFromFile keyfile GN_CLIENT KN_ADAPTIVE
      noscan := env.readers.readBooleanFromFile keyfile GN_CLIENT KN_NOSCAN
      buffersize := env.readers.readIntFromFile keyfile GN_CLIENT KN_BUFFER_SIZE CLIENT_MIN_BUFFER }
    setCompressionType opt (env.readers.readIntFromFile keyfile GN_CLIENT KN_COMPRESSION_TYPE opt.cmptype.toInt32).toInt16
  else some opt

/-- `read_from_configuration_file`. -/
def readFromConfigurationFile (opt : ClientOptions) (filename : Option CString) : Option ClientOptions :=
  match filename with
  | none => some opt
  | some filename =>
    match env.load filename with
    | none => some opt
    | some keyfile => do
      let opt ← readFromGroupClient env { opt with configfile := some filename } keyfile
      return { opt with srvConf := manageOptSrvConf opt.srvConf env.readers keyfile }

/-- Step 0 of `manage_command_line_options`: default values. -/
def defaultClientOptions : ClientOptions where
  version := false
  dirnameList := []
  excludeList := []
  blocksize := CLIENT_BLOCK_SIZE
  configfile := none
  dircache := some (CString.lit "/var/tmp/cdpfgl")
  dbname := some (CString.lit "filecache.db")
  srvConf := none
  buffersize := -1
  adaptive := false
  noscan := false
  cmptype := 0

/-- The server that is taken when no configuration file was loaded. -/
def defaultSrvConf : SrvConf := { newSrvConf with ip := some (CString.lit "localhost"), port := SERVER_PORT }

/-- Steps 1 and 2: the default configuration file, and then that of the command line. The flags are set between the two. -/
def readConfigurationFiles (cmd : CommandLine) : Option ClientOptions := do
  let opt ← readFromConfigurationFile env defaultClientOptions env.etcPath
  let opt := { opt with version := cmd.version, noscan := cmd.noscan }
  let opt ← readFromConfigurationFile env opt cmd.configfile
  return { opt with srvConf := some (opt.srvConf.getD defaultSrvConf) }

/-- The part of step 3 that sets what the command line gives of the server. -/
def setServer (cmd : CommandLine) (srvConf : SrvConf) : SrvConf :=
  { srvConf with
    ip := setOptionStr cmd.ip srvConf.ip
    port := if isPort cmd.port then cmd.port else srvConf.port }

/-- Step 3: the command line. -/
def setFromCommandLine (cmd : CommandLine) (opt : ClientOptions) : Option ClientOptions :=
  let opt := { opt with
    dirnameList := convertGcharArrayToGSList env.homeDir cmd.dirnameArray opt.dirnameList
    excludeList := convertGcharArrayToGSList env.homeDir cmd.excludeArray opt.excludeList }
  (if cmd.cmptype ≥ 0 then setCompressionType opt cmd.cmptype else some opt).map fun opt =>
    { opt with
      blocksize := if cmd.blocksize > 0 then cmd.blocksize else opt.blocksize
      dircache := setOptionStr cmd.dircache opt.dircache
      dbname := setOptionStr cmd.dbname opt.dbname
      srvConf := opt.srvConf.map (setServer cmd)
      adaptive := if cmd.adaptive > 0 then true else if cmd.adaptive = 0 then false else opt.adaptive
      buffersize :=
        if cmd.buffersize > 0 then cmd.buffersize else if opt.buffersize ≤ 0 then CLIENT_MIN_BUFFER else opt.buffersize }

/-- `manage_command_line_options`. -/
def manageCommandLineOptions (cmd : CommandLine) : Option ClientOptions :=
  (readConfigurationFiles env cmd).bind (setFromCommandLine env cmd)

/-- The configuration files that are loaded, in their order. -/
def loadedFiles (cmd : CommandLine) : List KeyFile := (env.etcPath.bind env.load).toList ++ (cmd.configfile.bind env.load).toList

end

/-! ## Where the values come from -/

section

variable {env : Surroundings} {cmd : CommandLine}

/-- The block size that a file sets. -/
def blocksizeOf (readers : ValueReaders) (keyfile : KeyFile) : Option Int64 :=
  if gKeyFileHasGroup keyfile GN_CLIENT then
    some (readers.readInt64FromFile keyfile GN_CLIENT KN_BLOCK_SIZE CLIENT_BLOCK_SIZE)
  else none

/-- What a step that may load a file does to some of the options. -/
structure TakesFrom (readers : ValueReaders) (loaded : Option KeyFile) (opt opt' : ClientOptions) : Prop where
  blocksize : opt'.blocksize = (loaded.bind (blocksizeOf readers)).getD opt.blocksize
  srvConf : opt'.srvConf = (loaded.map (readFromGroupServer readers)).or opt.srvConf
  cmptype : isCompressTypeAllowed opt.cmptype = true → isCompressTypeAllowed opt'.cmptype = true

/-- A type of compression that is set is allowed, and nothing else changes. -/
theorem setCompressionType_some {opt opt' : ClientOptions} {cmptype : Int16} (h : setCompressionType opt cmptype = some opt') :
    isCompressTypeAllowed cmptype = true ∧ opt' = { opt with cmptype := cmptype } := by
  unfold setCompressionType at h
  split at h
  · rename_i hallowed
    exact ⟨hallowed, (Option.some.inj h).symm⟩
  · simp at h

theorem takesFrom_readFromConfigurationFile {opt opt' : ClientOptions} {filename : Option CString}
    (h : readFromConfigurationFile env opt filename = some opt') :
    TakesFrom env.readers (filename.bind env.load) opt opt' := by
  cases filename with
  | none =>
    obtain rfl := Option.some.inj h
    exact ⟨rfl, rfl, id⟩
  | some filename =>
    cases hload : env.load filename with
    | none =>
      simp only [readFromConfigurationFile, hload, Option.some.injEq] at h
      subst h
      simp only [Option.bind_some, hload]
      exact ⟨rfl, rfl, id⟩
    | some keyfile =>
      simp only [readFromConfigurationFile, hload, Option.bind_eq_bind, Option.bind_eq_some_iff, Option.pure_def,
        Option.some.injEq] at h
      obtain ⟨read, hread, rfl⟩ := h
      simp only [Option.bind_some, hload]
      unfold readFromGroupClient at hread
      split at hread
      · rename_i hgroup
        obtain ⟨hallowed, rfl⟩ := setCompressionType_some hread
        refine ⟨?_, rfl, fun _ => hallowed⟩
        simp only [Option.bind_some, blocksizeOf, if_pos hgroup, Option.getD_some]
      · rename_i hgroup
        obtain rfl := Option.some.inj hread
        refine ⟨?_, rfl, id⟩
        simp only [Option.bind_some, blocksizeOf, if_neg hgroup, Option.getD_none]

/-- What the options are when the program goes on: the block size of the last file that sets one, and the server of the last file,
each where the command line gives no other. -/
structure Settled (env : Surroundings) (cmd : CommandLine) (opt : ClientOptions) : Prop where
  blocksize : opt.blocksize = if cmd.blocksize > 0 then cmd.blocksize
    else (LastWrite.last (blocksizeOf env.readers) (loadedFiles env cmd)).getD CLIENT_BLOCK_SIZE
  srvConf : opt.srvConf = some (setServer cmd
    ((LastWrite.last (fun keyfile => some (readFromGroupServer env.readers keyfile)) (loadedFiles env cmd)).getD defaultSrvConf))
  buffersize : 0 < opt.buffersize
  cmptype : isCompressTypeAllowed opt.cmptype = true

/-- `manage_command_line_options` settles the options. -/
theorem settled_manageCommandLineOptions {opt : ClientOptions} (h : manageCommandLineOptions env cmd = some opt) :
    Settled env cmd opt := by
  simp only [manageCommandLineOptions, readConfigurationFiles, Option.bind_eq_bind, Option.bind_eq_some_iff, Option.pure_def,
    Option.some.injEq] at h
  obtain ⟨_, ⟨first, hfirst, second, hsecond, rfl⟩, hset⟩ := h
  have hdefault := takesFrom_readFromConfigurationFile hfirst
  have hgiven := takesFrom_readFromConfigurationFile hsecond
  have hallowed := hgiven.cmptype (hdefault.cmptype (by decide))
  simp only [setFromCommandLine, Option.map_eq_some_iff] at hset
  obtain ⟨third, hthird, rfl⟩ := hset
  -- the type of compression is all that is set before the others
  have hkept : isCompressTypeAllowed third.cmptype = true ∧ third.blocksize = second.blocksize ∧
      third.srvConf = some (second.srvConf.getD defaultSrvConf) := by
    split at hthird
    · obtain ⟨hcmptype, rfl⟩ := setCompressionType_some hthird
      exact ⟨hcmptype, rfl, rfl⟩
    · obtain rfl := Option.some.inj hthird
      exact ⟨hallowed, rfl, rfl⟩
  have hlast : ∀ {Value : Type} (f : KeyFile → Option Value), LastWrite.last f (loadedFiles env cmd) =
      ((cmd.configfile.bind env.load).bind f).or ((env.etcPath.bind env.load).bind f) := by
    intro Value f
    rw [loadedFiles, LastWrite.last_append, LastWrite.last_toList, LastWrite.last_toList]
  refine ⟨?_, ?_, ?_, hkept.1⟩
  · simp only [hkept.2.1, hgiven.blocksize, hdefault.blocksize, hlast, Option.getD_or]
    rfl
  · simp only [hkept.2.2, hgiven.srvConf, hdefault.srvConf, hlast, Option.map_some]
    simp only [Option.map_eq_bind, Function.comp_def, show defaultClientOptions.srvConf = none from rfl, Option.or_none]
  · simp only
    split_ifs with hcmd hread
    · exact hcmd
    · decide
    · exact Int32.not_le.mp hread

end

end Sauvegarde
