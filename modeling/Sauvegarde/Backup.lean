import Sauvegarde.Client.Cache
import Sauvegarde.System

/-!
# Backups

The clients of a system, each with the thread that finds its files, the queues between its threads and its local cache: the program
that runs from the directories of the command line to the records of the server. The thread that saves files is the one of `System`.
The clients are started for the first time and are not stopped; their files do not change where they are, but are read as anything.
-/

namespace Sauvegarde

/-- Where a client runs: its files, its working directory, and what its options exclude. -/
structure Host where
  fs : LocalFiles
  currentDir : Location
  exclude : CString → Bool

/-- What a client has besides the threads that talk to the server: the thread that carves with the queues, whose `saving` is not used;
the local cache; and the version that is being saved. -/
structure Carver where
  carving : Carving
  files : FilesTable
  current : FileKey

/-- The clients and their server. -/
structure Backup (C : Type) where
  system : System C
  carvers : C → Carver

/-- A client is started. -/
def Carver.started (opt : Options) (dirnameList : List CString) : Carver :=
  ⟨Carving.started opt dirnameList, FilesTable.created, bindValuesToGetFileId newMetaData⟩

/-- Every client is started with its options and its directories. -/
def Backup.started {C : Type} (opts : C → Options) (dirnameLists : C → List CString) : Backup C :=
  ⟨System.initial, fun c => Carver.started (opts c) (dirnameLists c)⟩

/-- What the thread that saves files does to the cache and to `dir_queue`. -/
def Carver.enter (carver : Carver) (cacheTime : UInt64) : ClientOp → Carver
  | .dbSaveMetaData metaData onlyMeta => { carver with files := carver.files.dbSaveMetaData metaData onlyMeta cacheTime }
  | .dirQueuePush directory =>
    { carver with carving := { carver.carving with dirQueue := carver.carving.dirQueue ++ directory.toList } }
  | _ => carver

/-- Steps that do not touch the cache or the queues of a client. -/
def SystemOp.IsElsewhere {C : Type} : SystemOp C → Prop
  | .start _ _ => False
  | .enter _ => False
  | _ => True

section

variable {C : Type} [DecidableEq C] (hosts : C → Host) (backend : FileBackend) (sha256 : Bytes → Hash) (z : Zlib)

/-- One client changes. -/
def Backup.setCarver (s : Backup C) (c : C) (carver : Carver) : Backup C :=
  { s with carvers := Function.update s.carvers c carver }

/-- What the saving thread gets out of `save_queue`, looked up in the cache. -/
def Carver.popped (carver : Carver) (exclude : CString → Bool) (event : FileEvent) (saveQueue : List FileEvent) : Carver where
  carving :=
    { carver.carving with
      opt := (getMetaDataFromFileinfo exclude carver.carving.opt event false).1
      saveQueue := saveQueue }
  files := carver.files
  current := versionOfEvent exclude carver.carving.opt event

/-- A step, with the steps of the system that it takes: of the thread that carves; the saving thread takes an event out of its queue
and begins with its file, which reads as `source`; it enters a file in the cache or a directory in the queue; any other step. -/
inductive BackupStep : Backup C → List (SystemOp C) → Backup C → Prop where
  | carve {s : Backup C} {c : C} {carving : Carving} :
      CarvingStep (hosts c).fs (hosts c).currentDir (hosts c).exclude sha256 z (s.carvers c).carving carving →
      carving.saving = none →
      BackupStep s [] (s.setCarver c { s.carvers c with carving := carving })
  | popEvent {s : Backup C} {c : C} {event : FileEvent} {saveQueue : List FileEvent} {system : System C} (source : FileSource) :
      (s.carvers c).carving.saveQueue = event :: saveQueue →
      start sha256 z s.system c (lookedUp (hosts c).exclude (s.carvers c).carving.opt (s.carvers c).files event source) =
        some system →
      BackupStep s
        [.start c (lookedUp (hosts c).exclude (s.carvers c).carving.opt (s.carvers c).files event source)]
        (Backup.setCarver ⟨system, s.carvers⟩ c ((s.carvers c).popped (hosts c).exclude event saveQueue))
  | enter {s : Backup C} {c : C} {op : ClientOp} {k : ClientRes op → ClientProg Unit} {system : System C} (cacheTime : UInt64) :
      (s.system.clients c).thread = .call op k → enter s.system c = some system →
      BackupStep s [.enter c] (Backup.setCarver ⟨system, s.carvers⟩ c ((s.carvers c).enter cacheTime op))
  | elsewhere {s : Backup C} {op : SystemOp C} {system : System C} :
      op.IsElsewhere → nextSystem backend sha256 z s.system op = some system → BackupStep s [op] ⟨system, s.carvers⟩

end

section

variable {C : Type}

/-- What the saving thread has still to do, as `Carving` has it. -/
def savingOf : ClientProg Unit → Option (ClientProg Unit)
  | .ret () => none
  | .call op k => some (.call op k)

/-- The threads of a client that carve and save. -/
def Backup.carving (s : Backup C) (c : C) : Carving :=
  { (s.carvers c).carving with saving := savingOf (s.system.clients c).thread }

/-- The saving thread of a client and its cache. -/
def Backup.caching (s : Backup C) (c : C) : CachingClient :=
  ⟨(s.carvers c).carving.opt, (s.carvers c).files, (s.carvers c).current, (s.system.clients c).thread⟩

/-- Nothing is left to do: no client has a directory to carve or a file to save, and no request or block is on its way. -/
structure Backup.Finished (s : Backup C) : Prop where
  carved : ∀ c, (s.carving c).Idle
  drained : s.system.Drained

/-- A record is that of an entry: it has the name of the host, the name of the entry, and says whether that is a directory. -/
def RecordsEntry (hostname : CString) (smeta : ServerMetaData) (e : Entry) : Prop :=
  smeta.hostname = some hostname ∧ ∃ m, smeta.metaData = some m ∧ m.name = some (gBuildPath e.directory e.name) ∧
    (m.fileType = G_FILE_TYPE_DIRECTORY ↔ e.isDirectory = true)

end

end Sauvegarde
