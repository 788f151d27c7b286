import Mathlib.Data.List.Basic
import Sauvegarde.Extern.Glib
import Sauvegarde.Lib.Decimal

/-!
# Communication

The functions of communique.c over libcurl. A handle keeps its options until they are set again or reset. What happens during
`curl_easy_perform` is an input: the calls libcurl makes to `read_data` and `write_data`, in their order, and the code it
returns.

A buffer is the bytes that were written to it, the terminating zero included; reading past them is a fault. Positions and
lengths are offsets into memory that exists, so they do not wrap; the number of the next chunk of an answer has 32 bits and does.
-/

namespace Sauvegarde

/-- `CURLE_OK`. -/
def CURLE_OK : Int32 := 0

/-- `CURLE_FAILED_INIT`. -/
def CURLE_FAILED_INIT : Int32 := 2

/-- The Content-Type header of JSON requests and answers. -/
def CT_JSON : Bytes := str "application/json; charset=utf-8"

/-- The Content-Type header of plain text requests and answers. -/
def CT_PLAIN : Bytes := str "text/plain; charset=utf-8"

/-- The options of a curl handle that the code sets. -/
structure CurlHandle where
  post : Bool
  url : Option Bytes
  readFunction : Bool
  writeFunction : Bool
  httpHeader : List Bytes
deriving DecidableEq

/-- `curl_easy_init`, and what `curl_easy_reset` goes back to. -/
def curlEasyInit : CurlHandle := ⟨false, none, false, false, []⟩

/-- `comm_t`. -/
structure Comm where
  curlHandle : Option CurlHandle
  buffer : Option Bytes
  readbuffer : Option CString
  conn : Option CString
  seq : UInt32
  pos : Nat
  length : Nat
  uncompLen : Nat
  cmptype : Int16
deriving DecidableEq

/-- `init_comm_struct`. -/
def initCommStruct (handle : Option CurlHandle) (conn : Option CString) (cmptype : Int16) : Comm where
  curlHandle := handle
  buffer := none
  readbuffer := none
  conn := conn
  seq := 0
  pos := 0
  length := 0
  uncompLen := 0
  cmptype := cmptype

/-! ## Buffers -/

/-- `copy_buffer`. -/
def copyBuffer (buffer : Bytes) (len : Nat) : Bytes := buffer.take len ++ [0]

/-- `concat_buffer`: `none` when a buffer is read past its end, `some none` when both buffers are `NULL`. -/
def concatBuffer (buffer : Option Bytes) (pos : Nat) (buf1 : Option Bytes) (len : Nat) : Option (Option Bytes) :=
  match buffer, buf1 with
  | some b, some b1 => if pos ≤ b.length ∧ len ≤ b1.length then some (some (b.take pos ++ b1.take len ++ [0])) else none
  | some b, none => if pos ≤ b.length then some (some (b.take pos ++ [0])) else none
  | none, some b1 => if len ≤ b1.length then some (some (b1.take len ++ [0])) else none
  | none, none => some none

/-- `write_data`: `none` when the buffer received so far is read past its end. -/
def writeData (comm : Comm) (chunk : Bytes) : Option Comm :=
  if comm.seq = 0 then
    some { comm with buffer := some (copyBuffer chunk chunk.length), pos := chunk.length, seq := comm.seq + 1 }
  else
    (concatBuffer comm.buffer comm.pos (some chunk) chunk.length).map fun concat =>
      { comm with buffer := concat, pos := comm.pos + chunk.length, seq := comm.seq + 1 }

/-- The bytes of the buffer to be read. -/
def Comm.readBytes (comm : Comm) : Bytes := (comm.readbuffer.map CString.bytes).getD []

/-- `read_data`: the bytes handed out, and none at the end of the buffer. -/
def readData (comm : Comm) (wholeSize : Nat) : Comm × Bytes :=
  if comm.length ≤ comm.pos then (comm, [])
  else if comm.length < comm.pos + wholeSize then
    ({ comm with pos := comm.length }, (comm.readBytes.drop comm.pos).take (comm.length - comm.pos))
  else ({ comm with pos := comm.pos + wholeSize }, (comm.readBytes.drop comm.pos).take wholeSize)

/-! ## A transfer -/

/-- A call libcurl makes during a transfer: it asks for bytes to send, or it delivers a chunk of the answer. -/
inductive Callback where
  | read (size : Nat)
  | write (chunk : Bytes)
deriving DecidableEq

/-- What libcurl does in one `curl_easy_perform`: its calls, and the code it returns. -/
structure Exchange where
  callbacks : List Callback
  code : Int32
deriving DecidableEq

/-- The state of a transfer: the structure, what each call of `read_data` handed out, and whether a buffer was read past its
end. -/
structure Transfer where
  comm : Comm
  handed : List Bytes
  overread : Bool
deriving DecidableEq

/-- One call. After a fault the position goes on as the code would count it. -/
def Transfer.step (t : Transfer) : Callback → Transfer
  | .read size => { t with comm := (readData t.comm size).1, handed := t.handed ++ [(readData t.comm size).2] }
  | .write chunk =>
    match writeData t.comm chunk with
    | some comm => { t with comm := comm }
    | none => { t with
        comm := { t.comm with pos := t.comm.pos + chunk.length, seq := t.comm.seq + 1 }
        overread := true }

/-- The calls of a transfer, one after the other. -/
def Transfer.run (t : Transfer) (callbacks : List Callback) : Transfer := callbacks.foldl Transfer.step t

/-- A transfer before its first call. -/
def Transfer.start (comm : Comm) : Transfer := ⟨comm, [], false⟩

/-- What a call of `get_url` or `post_url` did: the transfer, the code it returns, and the options that were in force when the
request was performed, if one was. -/
structure UrlCall where
  transfer : Transfer
  success : Int32
  performed : Option CurlHandle
deriving DecidableEq

/-- `does_url_end_with_json`: what stands before the first `?` ends with `.json`. -/
def doesUrlEndWithJson (url : CString) : Bool := (str ".json").isSuffixOf (url.bytes.takeWhile (· != 63))

/-- `append_content_type_to_header`. -/
def appendContentTypeToHeader (chunk : List Bytes) (url : CString) : List Bytes :=
  if doesUrlEndWithJson url then chunk ++ [str "Content-Type: " ++ CT_JSON] else chunk ++ [str "Content-Type: " ++ CT_PLAIN]

/-- `get_url`: the options that the code does not set stay as they are. -/
def getUrl (comm : Comm) (url : Option CString) (header : Option CString) (exchange : Exchange) : UrlCall :=
  match url, comm.curlHandle, comm.conn with
  | some url, some handle, some conn =>
    let chunk := appendContentTypeToHeader [] url
    let chunk := match header with | none => chunk | some h => chunk ++ [h.bytes]
    let handle := { handle with url := some (conn.bytes ++ url.bytes), writeFunction := true, httpHeader := chunk }
    let comm := { comm with seq := 0, length := 0, pos := 0, curlHandle := some handle }
    let transfer := (Transfer.start comm).run exchange.callbacks
    let kept := exchange.code = CURLE_OK ∧ transfer.comm.buffer ≠ none
    let comm := if kept then transfer.comm else { transfer.comm with buffer := none }
    ⟨{ transfer with comm := comm }, exchange.code, some handle⟩
  | _, _, _ => ⟨Transfer.start comm, CURLE_FAILED_INIT, none⟩

/-- `post_url`: the options are reset and `CURLOPT_POST` is set. -/
def postUrl (comm : Comm) (url : Option CString) (exchange : Exchange) : UrlCall :=
  match url, comm.curlHandle, comm.conn, comm.readbuffer with
  | some url, some _, some conn, some readbuffer =>
    let length := readbuffer.bytes.length
    let chunk := [str "Transfer-Encoding: chunked", str "Content-Length: " ++ Decimal.print length]
    let chunk := appendContentTypeToHeader chunk url
    let handle := { curlEasyInit with
      post := true, readFunction := true, url := some (conn.bytes ++ url.bytes), writeFunction := true,
      httpHeader := chunk }
    let comm := { comm with seq := 0, pos := 0, uncompLen := length, length := length, curlHandle := some handle }
    let transfer := (Transfer.start comm).run exchange.callbacks
    let comm := if exchange.code ≠ CURLE_OK then { transfer.comm with buffer := none } else transfer.comm
    ⟨{ transfer with comm := comm }, exchange.code, some handle⟩
  | _, _, _, _ => ⟨Transfer.start comm, CURLE_FAILED_INIT, none⟩

/-- The request of `is_server_alive`. -/
def isServerAlive (comm : Comm) (exchange : Exchange) : UrlCall :=
  getUrl comm (some (CString.lit "/Version.json")) none exchange

/-! ## What the calls leave alone -/

@[simp] theorem readData_curlHandle (comm : Comm) (n : Nat) : (readData comm n).1.curlHandle = comm.curlHandle := by
  unfold readData
  split_ifs <;> rfl

@[simp] theorem readData_conn (comm : Comm) (n : Nat) : (readData comm n).1.conn = comm.conn := by
  unfold readData
  split_ifs <;> rfl

/-- A chunk changes neither the handle nor the server's address. -/
theorem writeData_keeps {comm comm' : Comm} {chunk : Bytes} (h : writeData comm chunk = some comm') :
    comm'.curlHandle = comm.curlHandle ∧ comm'.conn = comm.conn := by
  unfold writeData at h
  split_ifs at h
  · rw [Option.some.injEq] at h
    subst h
    exact ⟨rfl, rfl⟩
  · obtain ⟨concat, _, rfl⟩ := Option.map_eq_some_iff.mp h
    exact ⟨rfl, rfl⟩

/-- A call of libcurl changes neither the handle nor the server's address. -/
theorem Transfer.step_keeps (t : Transfer) (cb : Callback) :
    (t.step cb).comm.curlHandle = t.comm.curlHandle ∧ (t.step cb).comm.conn = t.comm.conn := by
  cases cb with
  | read size => exact ⟨readData_curlHandle t.comm size, readData_conn t.comm size⟩
  | write chunk =>
    simp only [Transfer.step]
    split
    · rename_i comm h
      exact writeData_keeps h
    · exact ⟨rfl, rfl⟩

/-- Neither does a whole transfer. -/
theorem Transfer.run_keeps (callbacks : List Callback) (t : Transfer) :
    (t.run callbacks).comm.curlHandle = t.comm.curlHandle ∧ (t.run callbacks).comm.conn = t.comm.conn := by
  induction callbacks generalizing t with
  | nil => exact ⟨rfl, rfl⟩
  | cons cb callbacks ih =>
    obtain ⟨hhandle, hconn⟩ := ih (t.step cb)
    obtain ⟨hhandle', hconn'⟩ := t.step_keeps cb
    exact ⟨hhandle.trans hhandle', hconn.trans hconn'⟩

/-- `get_url` does nothing when something it checks for is missing. -/
theorem getUrl_nothing {comm : Comm} {url : Option CString} (h : url = none ∨ comm.curlHandle = none ∨ comm.conn = none)
    (header : Option CString) (exchange : Exchange) :
    getUrl comm url header exchange = ⟨Transfer.start comm, CURLE_FAILED_INIT, none⟩ := by
  rcases h with rfl | h | h
  · rfl
  · cases url <;> simp [getUrl, h]
  · cases url <;> cases hh : comm.curlHandle <;> simp [getUrl, h, hh]

/-- `post_url` does nothing when something it checks for is missing. -/
theorem postUrl_nothing (comm : Comm) {url : Option CString}
    (h : url = none ∨ comm.curlHandle = none ∨ comm.conn = none ∨ comm.readbuffer = none) (exchange : Exchange) :
    postUrl comm url exchange = ⟨Transfer.start comm, CURLE_FAILED_INIT, none⟩ := by
  rcases h with rfl | h | h | h
  · rfl
  · cases url <;> simp [postUrl, h]
  · cases url <;> cases hh : comm.curlHandle <;> simp [postUrl, h, hh]
  · cases url <;> cases hh : comm.curlHandle <;> cases hc : comm.conn <;> simp [postUrl, h, hh, hc]

end Sauvegarde
