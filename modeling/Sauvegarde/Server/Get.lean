import Sauvegarde.Extern.Microhttpd
import Sauvegarde.Libcdpfgl.Communique
import Sauvegarde.Libcdpfgl.HashHeader
import Sauvegarde.Libcdpfgl.Unpacking

/-!
# Batches of blocks

`get_data_from_a_list_of_hashs` of server.c: the blocks asked for by a client that restores a file, uncompressed and put one
behind the other. The backend, zlib and the digest are parameters.
-/

namespace Sauvegarde

/-- The variables that the loop carries from one block to the next. The others are set again before they are used, but after a
failed decompression, and that is a fault: see `addBlock`. -/
structure Batch where
  finalBuffer : Option Bytes
  size : UInt32
deriving DecidableEq

/-- Text behind the blocks so far, of length `len`. -/
def addText (batch : Batch) (text : Option Bytes) (len : UInt64) : Option Batch :=
  (concatBuffer batch.finalBuffer batch.size.toNat text len.toNat).map fun concat =>
    ⟨concat, batch.size + len.toUInt32⟩

/-- One turn of the loop. A block that is not there is passed over. `none` is a fault: when `uncompress_buffer` fails it has
freed the data of the block, and when it returns them as they are `free_compress_t` frees them; `free_hash_data_t` then frees
them again. -/
def addBlock (z : Zlib) (batch : Batch) (hashData : Option HashData) : Option Batch :=
  match hashData with
  | none => some batch
  | some hd =>
    if hd.cmptype = COMPRESS_NONE_TYPE then addText batch hd.data hd.read.toUInt64
    else
      match uncompressBuffer z (hd.data.getD []) hd.read.toUInt64 hd.uncmplen.toUInt64 hd.cmptype with
      | (some compress, .kept) => addText batch compress.text compress.len
      | _ => none

/-- The loop over the blocks that the backend found, in the order of the request. -/
def addBlocks (z : Zlib) (batch : Batch) : List (Option HashData) → Option Batch
  | [] => some batch
  | hashData :: head => (addBlock z batch hashData).bind fun batch => addBlocks z batch head

/-- The blocks that are asked for, as the backend finds them by their hash in hexadecimal. -/
def requestedBlocks (retrieveData : Option CString → Option HashData) (header : Option CString) : List (Option HashData) :=
  (makeHashDataListFromString header).map fun headerHd => retrieveData (hashToString headerHd.hash)

/-- `get_data_from_a_list_of_hashs`: `none` is a fault, `some none` the answer `NULL`. -/
def getDataFromAListOfHashs (sha256 : Bytes → Hash) (z : Zlib) (retrieveData : Option CString → Option HashData)
    (header : Option CString) : Option (Option Json) :=
  (addBlocks z ⟨none, 0⟩ (requestedBlocks retrieveData header)).map fun batch =>
    let aHash := sha256 ((batch.finalBuffer.getD []).take batch.size.toNat)
    let len := batch.size.toUInt64.toInt64
    convertHashDataToString (newHashDataAsIs batch.finalBuffer len (some aHash.bytes) COMPRESS_NONE_TYPE len)

/-- The text of the header that asks for blocks, in the header lines of a request. -/
def hashArrayOfRequest (headers : List Bytes) : Option CString :=
  mhdLookupConnectionValue (headers.map parseHeader) (CString.ofBytes X_GET_HASH_ARRAY)

/-- The answer to a request of `/Data/Hash_Array.json` with these header lines; none after a fault and for `NULL`. -/
def answerHashArray (sha256 : Bytes → Hash) (z : Zlib) (retrieveData : Option CString → Option HashData)
    (headers : List Bytes) : Option Json :=
  (getDataFromAListOfHashs sha256 z retrieveData (hashArrayOfRequest headers)).join

end Sauvegarde
