import Sauvegarde.Lib.Runs
import Sauvegarde.Server.FileData

/-!
# Threads that share the files of the blocks

The data thread stores one block after the other; each connection thread retrieves one block at a time. Every write and every
read of a file is one step, and the steps of the threads come in any order.
-/

namespace Sauvegarde

/-- How far a connection thread is in `file_retrieve_data`, and what it has read. -/
inductive Retrieval where
  | cmptypeRead (h : Hash) (cmptype : Int16)
  | dataRead (h : Hash) (cmptype : Int16) (data : Bytes)

/-- The hash that is retrieved. -/
def Retrieval.hash : Retrieval → Hash
  | .cmptypeRead h _ => h
  | .dataRead h _ _ => h

/-- The files, the block whose key file is written and whose data are not, and the connection threads. -/
structure BlockThreads where
  files : Files
  storing : Option HashData
  retrieving : Nat → Option Retrieval

/-- The steps. `get_json_answer` lets only the digits of a whole hash through to `file_retrieve_data`. -/
inductive BlockStep where
  | writeMeta (hashData : HashData)
  | replaceData
  | readCmptype (thread : Nat) (h : Hash)
  | readData (thread : Nat)
  | readUncmplen (thread : Nat)

/-- What the steps leave behind: a store operation that was begun, and the answer to a retrieval. -/
inductive BlockEvent where
  | stores (hashData : HashData)
  | retrieved (h : Hash) (answer : Option HashData)

/-- One step; none when the thread is not there. -/
def blockStep (backend : FileBackend) (s : BlockThreads) : BlockStep → Option (BlockThreads × List BlockEvent)
  | .writeMeta hashData =>
    match s.storing, blockFilename backend hashData.hash, hashData.data with
    | some _, _, _ => none
    | none, some filename, some _ =>
      some ({ s with
        files := setMetadataToFileMeta s.files filename hashData.uncmplen hashData.cmptype
        storing := some hashData }, [.stores hashData])
    | none, _, _ => some (s, [])
  | .replaceData =>
    s.storing.bind fun hashData =>
      match blockFilename backend hashData.hash, hashData.data with
      | some filename, some data =>
        some ({ s with
          files := Function.update s.files filename (some (data.take hashData.read.toUInt64.toNat))
          storing := none }, [])
      | _, _ => none
  | .readCmptype thread h =>
    match s.retrieving thread, hexBlockFilename backend (hexText h.bytes) with
    | none, some filename =>
      some ({ s with
        retrieving := Function.update s.retrieving thread
          (some (.cmptypeRead h (getCmptypeFromFileMeta s.files filename))) }, [])
    | _, _ => none
  | .readData thread =>
    match s.retrieving thread with
    | some (.cmptypeRead h cmptype) =>
      match (hexBlockFilename backend (hexText h.bytes)).bind s.files with
      | some data => some ({ s with retrieving := Function.update s.retrieving thread (some (.dataRead h cmptype data)) }, [])
      | none => some ({ s with retrieving := Function.update s.retrieving thread none }, [.retrieved h none])
    | _ => none
  | .readUncmplen thread =>
    match s.retrieving thread with
    | some (.dataRead h cmptype data) =>
      (hexBlockFilename backend (hexText h.bytes)).map fun filename =>
        ({ s with retrieving := Function.update s.retrieving thread none },
          [.retrieved h (some (newHashDataAsIs (some data) (Int64.ofNat data.length) (stringToHash (some (hexText h.bytes)))
            cmptype (getUncmplenFromFileMeta s.files filename)))])
    | _ => none

/-- No block is stored and no thread runs. -/
def noBlocks : BlockThreads := ⟨fun _ => none, none, fun _ => none⟩

/-! ## The threads by themselves -/

/-- The two writes of a block, with nothing between them, are `file_store_data`. -/
theorem execute_store {backend : FileBackend} {s : BlockThreads} (hidle : s.storing = none) {hd : HashData} {h : Hash}
    {data : Bytes} (hhd : hd.IsBlock h data) :
    Runs.execute (blockStep backend) s [.writeMeta hd, .replaceData] =
      some ({ s with files := fileStoreData backend s.files hd }, [.stores hd]) := by
  simp [Runs.execute, blockStep, hidle, hhd.hash, hhd.data, blockFilename_eq, fileStoreData]

/-- The three reads of a block that is there, with nothing between them, are `file_retrieve_data`. -/
theorem execute_retrieve {backend : FileBackend} {s : BlockThreads} {thread : Nat} (hidle : s.retrieving thread = none) {h : Hash}
    (hblock : hasBlock backend s.files h = true) :
    Runs.execute (blockStep backend) s [.readCmptype thread h, .readData thread, .readUncmplen thread] =
      some (s, [.retrieved h (fileRetrieveData backend s.files (hexText h.bytes))]) := by
  obtain ⟨data, hdata⟩ := Option.isSome_iff_exists.mp ((hasBlock_eq backend s.files h).symm.trans hblock)
  have hname : hexBlockFilename backend (hexText h.bytes) = some (blockName backend h) :=
    (hexBlockFilename_hexText backend h).trans (blockFilename_eq backend h)
  have hback : Function.update s.retrieving thread none = s.retrieving := by
    rw [← hidle, Function.update_eq_self]
  simp [Runs.execute, blockStep, hidle, hname, hdata, fileRetrieveData, hback]

end Sauvegarde
