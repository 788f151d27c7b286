import Sauvegarde.Extern.Gio
import Sauvegarde.Lib.Prog
import Sauvegarde.Libcdpfgl.Unpacking

/-!
# Saving a file

The part of client.c that saves one file: the blocks are read and hashed, the meta data and the blocks are posted, what could not
be posted is kept in the local database, and the file is entered in the local cache. The functions are programs over what they
ask of the connection and of the database. Sha256 and zlib are parameters.
-/

namespace Sauvegarde

/-- `CLIENT_SMALL_FILE_SIZE`. -/
def CLIENT_SMALL_FILE_SIZE : UInt64 := 134217728

/-! ## Operations -/

/-- What the thread that saves files asks for. `held` are the blocks of the file that it still has in memory during the call: no
function reads them. -/
inductive ClientOp where
  | postUrl (url : String) (readbuffer : Option Json) (held : List HashData)
  | dbSaveBuffer (url : String) (buffer : Option Json) (held : List HashData)
  | dbSaveMetaData (metaData : MetaData) (onlyMeta : Bool)
  | dirQueuePush (directory : Option CString)
  | crash

/-- The answers: a post gives the answer of the server, or none when it is not `CURLE_OK`. -/
def ClientRes : ClientOp → Type
  | .postUrl _ _ _ => Option Json
  | .crash => Empty
  | _ => Unit

/-- A program of the thread that saves files. -/
abbrev ClientProg (α : Type) := Prog ClientOp ClientRes α

namespace ClientProg

/-- `post_url`. -/
def postUrl (url : String) (readbuffer : Option Json) (held : List HashData) : ClientProg (Option Json) :=
  Prog.perform (ClientOp.postUrl url readbuffer held)

/-- `db_save_buffer`. -/
def dbSaveBuffer (url : String) (buffer : Option Json) (held : List HashData) : ClientProg Unit :=
  Prog.perform (ClientOp.dbSaveBuffer url buffer held)

/-- `db_save_meta_data`. -/
def dbSaveMetaData (metaData : MetaData) (onlyMeta : Bool) : ClientProg Unit :=
  Prog.perform (ClientOp.dbSaveMetaData metaData onlyMeta)

/-- The push of a name into `dir_queue`. -/
def dirQueuePush (directory : Option CString) : ClientProg Unit := Prog.perform (ClientOp.dirQueuePush directory)

/-- A `NULL` is followed: the program ends. -/
def crash {α : Type} : ClientProg α := Prog.call .crash Empty.elim

end ClientProg

/-! ## What is saved -/

/-- The part of `main_struct_t` and of its options that is used here. `do_what_is_needed_from_command_line_options` leaves no
other buffer sizes and types of compression. -/
structure MainStruct where
  hostname : CString
  buffersize : Int32
  cmptype : Int16
  buffersize_pos : 0 < buffersize.toInt
  cmptype_allowed : isCompressTypeAllowed cmptype = true

/-- The comparison of the bytes that were read with the buffer size, in an unsigned type. -/
def MainStruct.isFull (main : MainStruct) (readBytes : UInt64) : Bool := main.buffersize.toInt64.toUInt64 ≤ readBytes

/-- The file as it is read: whether it opens, its blocks as one read after the other gives them, and after how many of them a
read fails, if one does. -/
structure FileSource where
  opens : Bool
  blocks : List Bytes
  failsAfter : Option Nat
  blocks_len : ∀ block ∈ blocks, 0 < block.length ∧ block.length < 2 ^ 63

/-- The blocks that are read. -/
def FileSource.reads (source : FileSource) : List Bytes :=
  match source.failsAfter with
  | none => source.blocks
  | some n => source.blocks.take n

/-- A file to save: its meta data, without hashs as `new_meta_data_t` makes them, and what it reads as. -/
structure FileToSave where
  main : MainStruct
  excluded : Bool
  metaData : MetaData
  source : FileSource
  noHashs : metaData.hashDataList = []

section

variable (sha256 : Bytes → Hash) (z : Zlib)

/-- The `hash_data_t` of a buffer that was read. -/
def hashDataOfBuffer (cmptype : Int16) (buffer : Bytes) : HashData :=
  newHashData z (some buffer) (Int64.ofNat buffer.length) (some (sha256 buffer).bytes) cmptype

/-- The loop of `calculate_hash_data_list_for_file`. -/
def prependBlocks (cmptype : Int16) : List HashData → List Bytes → List HashData
  | hashDataList, [] => hashDataList
  | hashDataList, buffer :: reads => prependBlocks cmptype (hashDataOfBuffer sha256 z cmptype buffer :: hashDataList) reads

/-- `calculate_hash_data_list_for_file`: the list is freed when a read fails. -/
def calculateHashDataListForFile (source : FileSource) (cmptype : Int16) : List HashData :=
  if source.opens then
    let hashDataList := prependBlocks sha256 z cmptype [] source.reads
    if source.failsAfter.isSome then [] else hashDataList.reverse
  else []

/-! ## Meta data -/

/-- `send_meta_data_to_server`: when the post fails the answer is made up, and lists every hash. -/
def sendMetaDataToServer (main : MainStruct) (metaData : MetaData) (dataSent : Bool) : ClientProg (Option Json) := do
  let jsonStr := convertMetaDataToJsonString metaData (some main.hostname) dataSent
  match ← ClientProg.postUrl "/Meta.json" jsonStr metaData.hashDataList with
  | some buffer => return some buffer
  | none =>
    ClientProg.dbSaveBuffer "/Meta.json" jsonStr metaData.hashDataList
    return (hashListRoot (convertHashListToJson metaData.hashDataList)).dumps

/-! ## Blocks -/

/-- Whether an element of a list is the one that `find_hash_in_list` looks for. -/
def isHash (hash : Option Bytes) (found : HashData) : Bool := compareTwoHashs hash found.hash = 0

/-- `find_hash_in_list`. -/
def findHashInList (hashDataList : List HashData) (hash : Option Bytes) : Option HashData :=
  hashDataList.find? (isHash hash)

/-- `g_list_remove_link` of the element that was found. -/
def removeLink (hashDataList : List HashData) (hash : Option Bytes) : List HashData := hashDataList.eraseP (isHash hash)

/-- The object that carries an array of blocks. -/
def dataArrayRoot (array : List Json) : Json :=
  insertJsonValueIntoJsonRoot (Json.obj []) "data_array" (some (Json.arr array))

/-- `insert_array_in_root_and_send`. -/
def insertArrayInRootAndSend (array : List Json) (held : List HashData) : ClientProg Unit := do
  let readbuffer := (dataArrayRoot array).dumps
  match ← ClientProg.postUrl "/Data_Array.json" readbuffer held with
  | some _ => return ()
  | none => ClientProg.dbSaveBuffer "/Data_Array.json" readbuffer held

/-- The loop of `send_all_data_to_server`. The sum of the lengths is computed in 64 bits and kept in a `gint`. -/
def sendAllLoop (limit : Int64) : List HashData → List Json → Int32 → List HashData → ClientProg (List HashData)
  | hashDataList, array, bytes, [] =>
    if 0 < bytes then do
      insertArrayInRootAndSend array hashDataList
      return hashDataList
    else return hashDataList
  | hashDataList, array, bytes, hashData :: hashList =>
    match findHashInList hashDataList hashData.hash with
    | none => ClientProg.crash
    | some found =>
      let array := array ++ (convertHashDataToJson found).toList
      let bytes := (bytes.toInt64 + found.read).toInt32
      let hashDataList := removeLink hashDataList hashData.hash
      if limit ≤ bytes.toInt64 then do
        insertArrayInRootAndSend array hashDataList
        sendAllLoop limit hashDataList [] 0 hashList
      else sendAllLoop limit hashDataList array bytes hashList

/-- `send_all_data_to_server`: the list without the blocks that were sent. -/
def sendAllDataToServer (main : MainStruct) (hashDataList : List HashData) (answer : Option Json) :
    ClientProg (List HashData) :=
  match answer.bind Json.loads with
  | some root =>
    if hashDataList ≠ [] then
      sendAllLoop main.buffersize.toInt64 hashDataList [] 0 (extractHashsFromArray root "hash_list")
    else return hashDataList
  | none => return hashDataList

/-- The loop of `send_data_to_server`. -/
def sendLoop : List HashData → List HashData → ClientProg (List HashData)
  | hashDataList, [] => return hashDataList
  | hashDataList, hashData :: hashList =>
    match findHashInList hashDataList hashData.hash with
    | none => ClientProg.crash
    | some found => do
      let readbuffer := convertHashDataToString found
      match ← ClientProg.postUrl "/Data.json" readbuffer hashDataList with
      | some _ => sendLoop (removeLink hashDataList hashData.hash) hashList
      | none =>
        ClientProg.dbSaveBuffer "/Data.json" readbuffer hashDataList
        sendLoop (removeLink hashDataList hashData.hash) hashList

/-- `send_data_to_server`. -/
def sendDataToServer (hashDataList : List HashData) (answer : Option Json) : ClientProg (List HashData) :=
  match answer.bind Json.loads with
  | some root =>
    if hashDataList ≠ [] then sendLoop hashDataList (extractHashsFromArray root "hash_list") else return hashDataList
  | none => return hashDataList

/-- `send_hash_array_to_server`: when the post fails the answer is what was to be posted. -/
def sendHashArrayToServer (hashDataList : List HashData) : ClientProg (Option Json) :=
  if hashDataList ≠ [] then do
    let wholeHashList := (hashListRoot (convertHashListToJson hashDataList)).dumps
    match ← ClientProg.postUrl "/Hash_Array.json" wholeHashList hashDataList with
    | some buffer => return some buffer
    | none => return wholeHashList
  else return none

/-- `lets_send_all_that_now`: the hashs that were saved so far, the last one first. -/
def letsSendAllThatNow (main : MainStruct) (hashDataList savedList : List HashData) : ClientProg (List HashData) := do
  let answer ← sendHashArrayToServer hashDataList
  let _ ← sendAllDataToServer main hashDataList answer
  return hashDataList.map copyOnlyHash ++ savedList

/-! ## Files -/

/-- `process_small_file_not_in_cache`. Its variable `success` is never set again: it stays zero, which is `CURLE_OK`. -/
def processSmallFileNotInCache (main : MainStruct) (metaData : MetaData) (source : FileSource) : ClientProg Unit := do
  let hashDataList :=
    if metaData.fileType = G_FILE_TYPE_REGULAR then calculateHashDataListForFile sha256 z source main.cmptype
    else metaData.hashDataList
  let metaData := { metaData with hashDataList := hashDataList }
  let answer ← sendMetaDataToServer main metaData false
  let hashDataList ←
    if metaData.size < metaData.blocksize.toUInt64 then sendDataToServer metaData.hashDataList answer
    else sendAllDataToServer main metaData.hashDataList answer
  ClientProg.dbSaveMetaData { metaData with hashDataList := hashDataList } true

/-- The loop of `process_big_file_not_in_cache`: the blocks that were not sent yet, the hashs of those that were, and the bytes
that were read since. -/
def processBlocks (main : MainStruct) :
    List Bytes → List HashData → List HashData → UInt64 → ClientProg (List HashData × List HashData × UInt64)
  | [], hashDataList, savedList, readBytes => return (hashDataList, savedList, readBytes)
  | buffer :: reads, hashDataList, savedList, readBytes =>
    let readBytes := readBytes + UInt64.ofNat buffer.length
    let hashDataList := hashDataOfBuffer sha256 z main.cmptype buffer :: hashDataList
    if main.isFull readBytes then do
      let savedList ← letsSendAllThatNow main hashDataList savedList
      processBlocks main reads [] savedList 0
    else processBlocks main reads hashDataList savedList readBytes

/-- The part of `process_big_file_not_in_cache` that reads the file: the hashs of the record. When a read fails the blocks that
were not sent are freed, and the list is not turned over. -/
def processStream (main : MainStruct) (source : FileSource) : ClientProg (List HashData) :=
  if source.opens then do
    let (hashDataList, savedList, readBytes) ← processBlocks sha256 z main source.reads [] [] 0
    if source.failsAfter.isSome then return savedList
    else if 0 < readBytes then do
      let savedList ← letsSendAllThatNow main hashDataList savedList
      return savedList.reverse
    else return savedList.reverse
  else return []

/-- `process_big_file_not_in_cache`. -/
def processBigFileNotInCache (main : MainStruct) (metaData : MetaData) (source : FileSource) : ClientProg Unit := do
  let savedList ← processStream sha256 z main source
  let metaData := { metaData with hashDataList := savedList }
  match ← sendMetaDataToServer main metaData true with
  | some _ => ClientProg.dbSaveMetaData metaData true
  | none => return ()

/-- The part of `save_one_file` that saves a file that is not in the cache. -/
def processFile (main : MainStruct) (metaData : MetaData) (source : FileSource) : ClientProg Unit :=
  if metaData.inCache = false then
    if metaData.size < CLIENT_SMALL_FILE_SIZE then processSmallFileNotInCache sha256 z main metaData source
    else processBigFileNotInCache sha256 z main metaData source
  else return ()

/-- `save_one_file`. -/
def saveOneFile (file : FileToSave) : ClientProg Unit :=
  if file.excluded = false then do
    processFile sha256 z file.main file.metaData file.source
    if file.metaData.fileType = G_FILE_TYPE_DIRECTORY then ClientProg.dirQueuePush file.metaData.name else return ()
  else return ()

end

end Sauvegarde
