import Sauvegarde.Client.Files
import Sauvegarde.Client.Options
import Sauvegarde.Server.MinioBackend

/-!
# The options of the client are usable

Exactly when a file can be cut into blocks and the server can be addressed, told from the configuration files and the command line:
a file that is loaded takes the place of the default server whether it names one or not, and a block size is taken as it is read.
-/

namespace Sauvegarde

/-- The blocks that `g_input_stream_read` gives of a content, for a buffer of a size: as long as there is something left and room
for it, a read gives some of it, and a read that gives nothing is the last. -/
inductive ReadsAs (blocksize : Int64) : Bytes → List Bytes → Prop where
  | stop {content : Bytes} : content = [] ∨ blocksize = 0 → ReadsAs blocksize content []
  | read {block rest : Bytes} {blocks : List Bytes} : block ≠ [] → (block.length : Int) ≤ blocksize.toInt →
      ReadsAs blocksize rest blocks → ReadsAs blocksize (block ++ rest) (block :: blocks)

/-- The options are usable: the sizes are positive, the server has an address and a port, a file that is not empty has a block, and
there is a connexion string. -/
structure Usable (opt : ClientOptions) : Prop where
  blocksize : 1 ≤ opt.blocksize
  buffersize : 1 ≤ opt.buffersize
  server : ∃ srvConf, opt.srvConf = some srvConf ∧ srvConf.ip ≠ none ∧ 1025 ≤ srvConf.port ∧ srvConf.port ≤ 65534
  blocks : ∀ (sha256 : Bytes → Hash) (z : Zlib) (main : MainStruct) (size : Int64) (content : Bytes) (source : FileSource),
    content ≠ [] → source.opens = true → source.failsAfter = none →
      ReadsAs (calculateFileBlocksize ⟨opt.adaptive, opt.blocksize, main⟩ size).2 content source.blocks →
        calculateHashDataListForFile sha256 z source opt.cmptype ≠ []
  address : makeConnexionString opt.srvConf ≠ none

/-- What the files that are loaded and the command line must give for it. Of the block size, the last file with a group for the
client counts; of the server, the last file. -/
structure Configured (env : Surroundings) (cmd : CommandLine) : Prop where
  blocksize : 0 < cmd.blocksize ∨
    ∀ file ∈ (loadedFiles env cmd).reverse.find? fun file => gKeyFileHasGroup file GN_CLIENT,
      ∀ value ∈ gKeyFileGetValue file GN_CLIENT KN_BLOCK_SIZE, ∃ number ∈ env.readers.getInt64 value, 1 ≤ number
  ip : cmd.ip ≠ none ∨
    ∀ file ∈ (loadedFiles env cmd).getLast?,
      ∃ value ∈ gKeyFileGetValue file GN_SERVER KN_SERVER_IP, env.readers.getString value ≠ none
  port : isPort cmd.port = true ∨
    ∀ file ∈ (loadedFiles env cmd).getLast?, gKeyFileHasGroup file GN_SERVER = true ∧
      ∀ value ∈ gKeyFileGetValue file GN_SERVER KN_SERVER_PORT, ∃ number ∈ env.readers.getInteger value, isPort number = true

namespace OptionsAux

variable {env : Surroundings} {cmd : CommandLine} {opt : ClientOptions}

/-! ## Numbers -/

theorem one_le_iff (n : Int64) : 1 ≤ n ↔ 0 < n := by
  rw [Int64.le_iff_toInt_le, Int64.lt_iff_toInt_lt, show (1 : Int64).toInt = 1 from rfl, show (0 : Int64).toInt = 0 from rfl]
  omega

theorem one_le_iff' (n : Int32) : 1 ≤ n ↔ 0 < n := by
  rw [Int32.le_iff_toInt_le, Int32.lt_iff_toInt_lt, show (1 : Int32).toInt = 1 from rfl, show (0 : Int32).toInt = 0 from rfl]
  omega

theorem isPort_iff (port : Int32) : isPort port = true ↔ 1025 ≤ port ∧ port ≤ 65534 := by
  simp only [isPort, gt_iff_lt, Bool.and_eq_true, decide_eq_true_eq, Int32.lt_iff_toInt_lt, Int32.le_iff_toInt_le]
  rw [show (1024 : Int32).toInt = 1024 from rfl, show (65535 : Int32).toInt = 65535 from rfl,
    show (1025 : Int32).toInt = 1025 from rfl, show (65534 : Int32).toInt = 65534 from rfl]
  omega

/-! ## Blocks -/

/-- With a positive block size a content that is not empty has a block. -/
theorem readsAs_ne_nil {blocksize : Int64} {content : Bytes} {blocks : List Bytes} (h : ReadsAs blocksize content blocks)
    (hpos : 1 ≤ blocksize) (hne : content ≠ []) : blocks ≠ [] := by
  cases h with
  | stop hstop =>
    rcases hstop with hempty | hzero
    · exact absurd hempty hne
    · subst hzero
      exact absurd hpos (by decide)
  | read => simp

/-- The block sizes of the adaptive mode. -/
theorem calculateFileBlocksize_mem (opt : Options) (size : Int64) :
    (calculateFileBlocksize opt size).2 ∈ [opt.blocksize, 512, 2048, 8192, 16384, 65536, 131072, 262144] := by
  unfold calculateFileBlocksize
  split_ifs <;> simp

/-- The block size of a file is positive when that of the options is. -/
theorem calculateFileBlocksize_pos (opt : Options) (size : Int64) (h : 1 ≤ opt.blocksize) :
    1 ≤ (calculateFileBlocksize opt size).2 := by
  have hadaptive : ∀ n ∈ [(512 : Int64), 2048, 8192, 16384, 65536, 131072, 262144], 1 ≤ n := List.all_iff_forall_prop.mp (by decide)
  rcases List.mem_cons.mp (calculateFileBlocksize_mem opt size) with hfixed | hmem
  · rw [hfixed]
    exact h
  · exact hadaptive _ hmem

/-- A file that is read to its end has a hash for each of its blocks. -/
theorem calculateHashDataListForFile_ne_nil (sha256 : Bytes → Hash) (z : Zlib) {source : FileSource} (cmptype : Int16)
    (hopens : source.opens = true) (hreads : source.failsAfter = none) (hblocks : source.blocks ≠ []) :
    calculateHashDataListForFile sha256 z source cmptype ≠ [] := by
  simp only [calculateHashDataListForFile, hopens, if_true, hreads, Option.isSome_none, Bool.false_eq_true, if_false,
    FileSource.reads, prependBlocks_eq, List.append_nil, List.reverse_reverse]
  simpa using hblocks

/-! ## Where the values come from -/

theorem blocksize_iff (h : Settled env cmd opt) : 1 ≤ opt.blocksize ↔ 0 < cmd.blocksize ∨
    ∀ file ∈ (loadedFiles env cmd).reverse.find? fun file => gKeyFileHasGroup file GN_CLIENT,
      ∀ value ∈ gKeyFileGetValue file GN_CLIENT KN_BLOCK_SIZE, ∃ number ∈ env.readers.getInt64 value, 1 ≤ number := by
  have hlast : LastWrite.last (blocksizeOf env.readers) (loadedFiles env cmd) =
      ((loadedFiles env cmd).reverse.find? fun file => gKeyFileHasGroup file GN_CLIENT).map fun file =>
        env.readers.readInt64FromFile file GN_CLIENT KN_BLOCK_SIZE CLIENT_BLOCK_SIZE := LastWrite.last_ite _ _ _
  rw [h.blocksize, hlast]
  split_ifs with hcmd
  · simp [hcmd, one_le_iff]
  · cases (loadedFiles env cmd).reverse.find? fun file => gKeyFileHasGroup file GN_CLIENT with
    | none => simp [show (1 : Int64) ≤ CLIENT_BLOCK_SIZE by decide]
    | some file =>
      simp only [Option.map_some, Option.getD_some, Option.mem_def, Option.some.injEq, forall_eq']
      rw [ValueReaders.readInt64FromFile_pos_iff _ _ _ _ (by decide)]
      simp [hcmd]

/-- The server before the command line is looked at. -/
def configuredServer (env : Surroundings) (cmd : CommandLine) : SrvConf :=
  ((loadedFiles env cmd).getLast?.map (readFromGroupServer env.readers)).getD defaultSrvConf

theorem srvConf_eq (h : Settled env cmd opt) : opt.srvConf = some (setServer cmd (configuredServer env cmd)) := by
  rw [h.srvConf, LastWrite.last_some, configuredServer]

theorem ip_iff : (setServer cmd (configuredServer env cmd)).ip ≠ none ↔ cmd.ip ≠ none ∨
    ∀ file ∈ (loadedFiles env cmd).getLast?,
      ∃ value ∈ gKeyFileGetValue file GN_SERVER KN_SERVER_IP, env.readers.getString value ≠ none := by
  simp only [setServer, setOptionStr, configuredServer]
  cases cmd.ip with
  | some ip => simp
  | none =>
    cases (loadedFiles env cmd).getLast? with
    | none => simp [defaultSrvConf]
    | some file =>
      simp only [Option.map_some, Option.getD_some, ip_readFromGroupServer_ne_none_iff, ne_eq, not_true_eq_false, false_or,
        Option.mem_def, Option.some.injEq, forall_eq']

theorem port_iff : isPort (setServer cmd (configuredServer env cmd)).port = true ↔ isPort cmd.port = true ∨
    ∀ file ∈ (loadedFiles env cmd).getLast?, gKeyFileHasGroup file GN_SERVER = true ∧
      ∀ value ∈ gKeyFileGetValue file GN_SERVER KN_SERVER_PORT, ∃ number ∈ env.readers.getInteger value, isPort number = true := by
  simp only [setServer, configuredServer]
  split_ifs with hcmd
  · simp [hcmd]
  · cases (loadedFiles env cmd).getLast? with
    | none => simp [show isPort defaultSrvConf.port = true by decide]
    | some file =>
      simp only [Option.map_some, Option.getD_some, isPort_readFromGroupServer_iff, hcmd, Option.mem_def, Option.some.injEq,
        forall_eq', Bool.false_eq_true, false_or]

end OptionsAux

open OptionsAux

/-- The options that `manage_command_line_options` returns are usable exactly when what is configured allows it. -/
theorem manageCommandLineOptions_usable_iff {env : Surroundings} {cmd : CommandLine} {opt : ClientOptions}
    (h : manageCommandLineOptions env cmd = some opt) : Usable opt ↔ Configured env cmd := by
  have hsettled := settled_manageCommandLineOptions h
  have hserver := srvConf_eq hsettled
  constructor
  · intro husable
    obtain ⟨srvConf, heq, hip, hport⟩ := husable.server
    rw [hserver] at heq
    obtain rfl := Option.some.inj heq
    exact ⟨(blocksize_iff hsettled).mp husable.blocksize, ip_iff.mp hip, port_iff.mp ((isPort_iff _).mpr hport)⟩
  · intro hconfigured
    have hblocksize := (blocksize_iff hsettled).mpr hconfigured.blocksize
    have hip := ip_iff.mpr hconfigured.ip
    have hport := port_iff.mpr hconfigured.port
    refine ⟨hblocksize, (one_le_iff' _).mpr hsettled.buffersize, ⟨_, hserver, hip, (isPort_iff _).mp hport⟩, ?_, ?_⟩
    · intro sha256 z main size content source hne hopens hreads hblocks
      exact calculateHashDataListForFile_ne_nil sha256 z opt.cmptype hopens hreads
        (readsAs_ne_nil hblocks (calculateFileBlocksize_pos _ size hblocksize) hne)
    · exact (makeConnexionString_ne_none_iff _).mpr ⟨_, hserver, hip, hport⟩

/-- How GLib reads values that are plain: numbers alone, texts without escapes, lists with one separator between two elements. -/
def plainReaders : ValueReaders where
  getInt64 value := some (gKeyFileGetInt64 value)
  getInteger value := some (gKeyFileGetInteger value)
  getBoolean value := if value = str "true" then some true else if value = str "false" then some false else none
  getString value := some (CString.ofBytes value)
  getStringList value := some ((value.splitOn 59).map CString.ofBytes)

/-- The key files that the backends write hold plain numbers only, and are read in the same way. -/
theorem plainReaders_readNumbers (keyfile : KeyFile) (groupname keyname : Bytes) (long : Int64) (short : Int32) :
    plainReaders.readInt64FromFile keyfile groupname keyname long = readInt64FromFile keyfile groupname keyname long ∧
      plainReaders.readIntFromFile keyfile groupname keyname short = readIntFromFile keyfile groupname keyname short := by
  unfold ValueReaders.readInt64FromFile ValueReaders.readIntFromFile readInt64FromFile readIntFromFile
  cases gKeyFileGetValue keyfile groupname keyname with
  | none => exact ⟨rfl, rfl⟩
  | some value => exact ⟨rfl, rfl⟩

/-- A system with one configuration file, the default one. -/
def oneFile (keyfile : KeyFile) : Surroundings where
  readers := plainReaders
  homeDir := CString.lit "/root"
  etcPath := some (CString.lit "/etc/cdpfgl/client.conf")
  load filename := if filename = CString.lit "/etc/cdpfgl/client.conf" then some keyfile else none

/-- A file with a block size and a server makes the options usable. -/
theorem usable_blocksize_server :
    ∃ opt, manageCommandLineOptions
        (oneFile [(GN_CLIENT, [(KN_BLOCK_SIZE, str "512")]), (GN_SERVER, [(KN_SERVER_IP, str "127.0.0.1")])])
        CommandLine.empty = some opt ∧ Usable opt := by
  obtain ⟨opt, hopt⟩ : ∃ opt, manageCommandLineOptions
      (oneFile [(GN_CLIENT, [(KN_BLOCK_SIZE, str "512")]), (GN_SERVER, [(KN_SERVER_IP, str "127.0.0.1")])])
      CommandLine.empty = some opt := ⟨_, rfl⟩
  refine ⟨opt, hopt, (manageCommandLineOptions_usable_iff hopt).mpr ⟨Or.inr ?_, Or.inr ?_, Or.inr ?_⟩⟩
  · decide
  · decide
  · decide

/-- A file that sets a block size of zero and names no server: nothing is read of a file, and there is no address. -/
theorem unusable_zeroBlocksize :
    ∃ opt, manageCommandLineOptions (oneFile [(GN_CLIENT, [(KN_BLOCK_SIZE, str "0")])]) CommandLine.empty = some opt ∧
      opt.blocksize = 0 ∧ ReadsAs opt.blocksize (str "text") [] ∧ opt.srvConf = some newSrvConf ∧
      makeConnexionString opt.srvConf = none ∧ ¬ Usable opt := by
  refine ⟨_, rfl, rfl, ReadsAs.stop (Or.inr rfl), rfl, rfl, ?_⟩
  intro husable
  exact husable.address rfl

end Sauvegarde
