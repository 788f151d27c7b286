import Sauvegarde.Extern.Enumerate
import Sauvegarde.Client.Save

/-!
# Carving directories

The part of client.c that finds the files to save. One thread carves the directories of the command line, and then those it takes out
of `dir_queue`: it puts an event into `save_queue` for each file of a directory. The other thread takes the events out, saves the
files, and puts the directories among them into `dir_queue`. The local database was opened, and `noscan` is not set.
-/

namespace Sauvegarde

/-- `CLIENT_MIN_BUFFER`. -/
def CLIENT_MIN_BUFFER : Int32 := 1048576

/-- The part of `options_t` that is used here. -/
structure Options where
  adaptive : Bool
  blocksize : Int64
  main : MainStruct

/-- `file_event_t`. -/
structure FileEvent where
  directory : CString
  fileinfo : FileInfo
deriving DecidableEq

/-- `new_file_event_t`. -/
def newFileEvent (directory : CString) (fileinfo : FileInfo) : FileEvent := ⟨directory, fileinfo⟩

/-! ## Meta data -/

/-- `calculate_file_blocksize`: for the larger files it changes the buffer size of the options. -/
def calculateFileBlocksize (opt : Options) (size : Int64) : Options × Int64 :=
  if opt.adaptive then
    if size < 32768 then (opt, 512)
    else if size < 262144 then (opt, 2048)
    else if size < 1048576 then (opt, 8192)
    else if size < 8388608 then (opt, 16384)
    else if size < 67108864 then (opt, 65536)
    else if size < 134217728 then
      ({ opt with main := { opt.main with buffersize := CLIENT_MIN_BUFFER * 2, buffersize_pos := by decide } }, 131072)
    else ({ opt with main := { opt.main with buffersize := CLIENT_MIN_BUFFER * 4, buffersize_pos := by decide } }, 262144)
  else (opt, opt.blocksize)

/-- `get_file_attributes`. -/
def getFileAttributes (metaData : MetaData) (fileinfo : FileInfo) : MetaData :=
  { metaData with
    inode := fileinfo.inode
    owner := fileinfo.owner
    group := fileinfo.group
    uid := fileinfo.uid
    gid := fileinfo.gid
    atime := fileinfo.atime
    ctime := fileinfo.ctime
    mtime := fileinfo.mtime
    mode := fileinfo.mode
    size := fileinfo.size
    link := if metaData.fileType = G_FILE_TYPE_SYMBOLIC_LINK then fileinfo.symlinkTarget else some (CString.lit "") }

section

variable (exclude : CString → Bool)

/-- `get_meta_data_from_fileinfo`: the options, the meta data and whether the file is excluded. `inCache` is what
`is_file_in_cache` answers. -/
def getMetaDataFromFileinfo (opt : Options) (event : FileEvent) (inCache : Bool) : Options × MetaData × Bool :=
  let name := gBuildPath event.directory event.fileinfo.name
  let metaData := { newMetaData with fileType := event.fileinfo.fileType, name := some name }
  if exclude name = false then
    let metaData := getFileAttributes metaData event.fileinfo
    let sized := calculateFileBlocksize opt metaData.size.toInt64
    (sized.1, { metaData with blocksize := sized.2, inCache := inCache }, false)
  else (opt, metaData, true)

/-- No hashs are known of a file before it is read. -/
theorem hashDataList_getMetaDataFromFileinfo (opt : Options) (event : FileEvent) (inCache : Bool) :
    (getMetaDataFromFileinfo exclude opt event inCache).2.1.hashDataList = [] := by
  simp only [getMetaDataFromFileinfo]
  split_ifs <;> rfl

/-- The file of an event as `save_one_file` saves it, when it reads as `source`. -/
def fileOfEvent (opt : Options) (event : FileEvent) (inCache : Bool) (source : FileSource) : FileToSave where
  main := (getMetaDataFromFileinfo exclude opt event inCache).1.main
  excluded := (getMetaDataFromFileinfo exclude opt event inCache).2.2
  metaData := (getMetaDataFromFileinfo exclude opt event inCache).2.1
  source := source
  noHashs := hashDataList_getMetaDataFromFileinfo exclude opt event inCache

end

/-! ## The two threads -/

/-- What an operation of the thread that saves files puts into `dir_queue`: `g_async_queue_push` does not take `NULL`. -/
def ClientOp.pushedDirectory : ClientOp → Option CString
  | .dirQueuePush directory => directory
  | _ => none

/-- The two threads and their queues: the directories of the command line that were not carved yet, the directory that is being
carved with what its enumerator still gives, and what is left to do for the event that is being saved. `pushed` is everything that was
put into `save_queue`. -/
structure Carving where
  opt : Options
  listed : List CString
  enumerator : Option (CString × List FileInfo)
  saveQueue : List FileEvent
  dirQueue : List CString
  saving : Option (ClientProg Unit)
  pushed : List FileEvent

/-- The threads were started. -/
def Carving.started (opt : Options) (dirnameList : List CString) : Carving := ⟨opt, dirnameList, none, [], [], none, []⟩

/-- Both queues are empty and both threads wait: the first thread for a directory and the second one for an event. -/
structure Carving.Idle (s : Carving) : Prop where
  listed : s.listed = []
  enumerator : s.enumerator = none
  saveQueue : s.saveQueue = []
  dirQueue : s.dirQueue = []
  saving : s.saving = none

section

variable (fs : LocalFiles) (currentDir : Location) (exclude : CString → Bool) (sha256 : Bytes → Hash) (z : Zlib)

/-- `carve_one_directory` up to the loop of `iterate_over_enum`: the enumerator, if there is one. -/
def CarveOneDirectory (directory : CString) (enumerator : Option (CString × List FileInfo)) : Prop :=
  match gFileEnumerateChildren fs currentDir directory with
  | none => enumerator = none
  | some place => ∃ infos, Lists fs place infos ∧ enumerator = some (directory, infos)

/-- A step of one of the threads. `carve_all_directories`: a directory of the command line, the next file of an enumerator, the end of
an enumerator, a directory of `dir_queue`. `save_one_file_threaded`: an event of `save_queue`, an operation of `save_one_file` with any
answer, its end. -/
inductive CarvingStep : Carving → Carving → Prop where
  | carveListed {s : Carving} {directory : CString} {listed : List CString} {enumerator : Option (CString × List FileInfo)} :
      s.enumerator = none → s.listed = directory :: listed → CarveOneDirectory fs currentDir directory enumerator →
      CarvingStep s { s with listed := listed, enumerator := enumerator }
  | nextFile {s : Carving} {directory : CString} {fileinfo : FileInfo} {infos : List FileInfo} :
      s.enumerator = some (directory, fileinfo :: infos) →
      CarvingStep s
        { s with
          enumerator := some (directory, infos)
          saveQueue := s.saveQueue ++ [newFileEvent directory fileinfo]
          pushed := s.pushed ++ [newFileEvent directory fileinfo] }
  | close {s : Carving} {directory : CString} : s.enumerator = some (directory, []) →
      CarvingStep s { s with enumerator := none }
  | carveQueued {s : Carving} {directory : CString} {dirQueue : List CString}
      {enumerator : Option (CString × List FileInfo)} :
      s.enumerator = none → s.listed = [] → s.dirQueue = directory :: dirQueue →
      CarveOneDirectory fs currentDir directory enumerator →
      CarvingStep s { s with dirQueue := dirQueue, enumerator := enumerator }
  | popEvent {s : Carving} {event : FileEvent} {saveQueue : List FileEvent} (inCache : Bool) (source : FileSource) :
      s.saving = none → s.saveQueue = event :: saveQueue →
      CarvingStep s
        { s with
          opt := (getMetaDataFromFileinfo exclude s.opt event inCache).1
          saveQueue := saveQueue
          saving := some (saveOneFile sha256 z (fileOfEvent exclude s.opt event inCache source)) }
  | operation {s : Carving} {op : ClientOp} {k : ClientRes op → ClientProg Unit} (answer : ClientRes op) :
      s.saving = some (.call op k) →
      CarvingStep s { s with saving := some (k answer), dirQueue := s.dirQueue ++ op.pushedDirectory.toList }
  | saved {s : Carving} : s.saving = some (.ret ()) → CarvingStep s { s with saving := none }

/-- Any interleaving of steps. -/
abbrev CarvingRun : Carving → Carving → Prop := Relation.ReflTransGen (CarvingStep fs currentDir exclude sha256 z)

end

/-! ## Entries -/

/-- A file of a directory as an event names it, and whether it is a directory. -/
@[ext] structure Entry where
  directory : CString
  name : CString
  isDirectory : Bool
deriving DecidableEq

/-- The entry that an event is about. -/
def FileEvent.entry (event : FileEvent) : Entry :=
  ⟨event.directory, event.fileinfo.name, event.fileinfo.fileType = G_FILE_TYPE_DIRECTORY⟩

/-- The text of what stands some names below a directory. -/
def pathFrom (directory : CString) (path : List CString) : CString := path.foldl gBuildPath directory

/-- An entry stands strictly below a directory, and no directory between the two is excluded. -/
def IsBelow (fs : LocalFiles) (currentDir : Location) (exclude : CString → Bool) (directory : CString) (e : Entry) : Prop :=
  ∃ place path node, gFileEnumerateChildren fs currentDir directory = some place ∧ e.directory = pathFrom directory path ∧
    fs.node (place ++ path.map CString.bytes ++ [e.name.bytes]) = some node ∧ e.isDirectory = decide (node = .dir) ∧
    ∀ between, between <+: path → between ≠ [] → exclude (pathFrom directory between) = false

end Sauvegarde
