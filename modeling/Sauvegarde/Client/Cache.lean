import Sauvegarde.Client.Carving
import Sauvegarde.Lib.Runs
import Sauvegarde.Libcdpfgl.FilesTable

/-!
# Saving with the local cache

The thread of client.c that saves files, over the table in which each file that was saved has a row. An event is looked up in the
table when its meta data are taken, and is entered in it by the program of `save_one_file`. The program may be stopped at any moment and
started again: the table stays.
-/

namespace Sauvegarde

/-- The thread: the options, the table, the version that is being saved and what is left to do for it. -/
structure CachingClient where
  opt : Options
  files : FilesTable
  current : FileKey
  thread : ClientProg Unit

/-- A step: an event is taken out of the queue, and the file reads as `source`; an operation is answered, with what the server answers
to a post and the time of an entry; the program is stopped. -/
inductive CachingOp where
  | save (event : FileEvent) (source : FileSource)
  | answer (reply : Option Json) (cacheTime : UInt64)
  | stop

/-- What happens to a version of a file: it is looked up, the saving begins, a request is made for it, it is entered in the cache, the
program is stopped while it is being saved. -/
inductive CachingEvent where
  | begun (version : FileKey)
  | sent (version : FileKey)
  | entered (version : FileKey)
  | stopped (version : FileKey)
deriving DecidableEq

/-- An operation makes a request, to the server or to the table of those that are kept. -/
def ClientOp.sends : ClientOp → Bool
  | .postUrl _ _ _ => true
  | .dbSaveBuffer _ _ _ => true
  | _ => false

section

variable (exclude : CString → Bool) (sha256 : Bytes → Hash) (z : Zlib)

/-- The version of the file of an event. -/
def versionOfEvent (opt : Options) (event : FileEvent) : FileKey :=
  bindValuesToGetFileId (getMetaDataFromFileinfo exclude opt event false).2.1

/-- The file of an event, looked up in the table. -/
def lookedUp (opt : Options) (files : FilesTable) (event : FileEvent) (source : FileSource) : FileToSave :=
  fileOfEvent exclude opt event (files.isFileInCache (getMetaDataFromFileinfo exclude opt event false).2.1) source

/-- The thread goes on with the answer to its operation; a `NULL` that is followed has none. -/
def answerOp (s : CachingClient) (reply : Option Json) (cacheTime : UInt64) :
    Option (CachingClient × List CachingEvent) :=
  match s.thread with
  | .ret () => none
  | .call (.postUrl _ _ _) k => some ({ s with thread := k reply }, [.sent s.current])
  | .call (.dbSaveBuffer _ _ _) k => some ({ s with thread := k () }, [.sent s.current])
  | .call (.dbSaveMetaData metaData onlyMeta) k =>
    some ({ s with thread := k (), files := s.files.dbSaveMetaData metaData onlyMeta cacheTime },
      [.entered (bindValuesToGetFileId metaData)])
  | .call (.dirQueuePush _) k => some ({ s with thread := k () }, [])
  | .call .crash _ => none

/-- A step of the thread; none when it is not possible. -/
def cachingStep (s : CachingClient) : CachingOp → Option (CachingClient × List CachingEvent)
  | .save event source =>
    match s.thread with
    | .call _ _ => none
    | .ret () =>
      let file := lookedUp exclude s.opt s.files event source
      let version := versionOfEvent exclude s.opt event
      some (⟨(getMetaDataFromFileinfo exclude s.opt event false).1, s.files, version, saveOneFile sha256 z file⟩,
        if file.excluded then [] else [.begun version])
  | .answer reply cacheTime => answerOp s reply cacheTime
  | .stop =>
    match s.thread with
    | .call _ _ => some ({ s with thread := .ret () }, [.stopped s.current])
    | .ret () => some (s, [])

end

/-- The client is started for the first time. -/
def CachingClient.started (opt : Options) : CachingClient :=
  ⟨opt, FilesTable.created, bindValuesToGetFileId newMetaData, .ret ()⟩

end Sauvegarde
