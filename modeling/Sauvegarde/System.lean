import Sauvegarde.Lib.Runs
import Sauvegarde.Client.Files
import Sauvegarde.Libcdpfgl.Database

/-!
# Clients and their server

Any number of clients that save files to one server with the file backend. A client has two threads: one runs `save_one_file` on one
file after the other, the other transmits the requests that were kept. The server processes requests as they arrive, and its two
threads take records and blocks out of the queues. A post may fail at any time, before or after the server processed it, and a
request whose post failed may still arrive later, or never.
-/

namespace Sauvegarde

/-- A client: what its first thread has still to do, the answer of the server to the post that is under way, the requests that were
kept and the thread that transmits them, and whether the server processed the row that is being posted. -/
structure Client where
  thread : ClientProg Unit
  served : Option Json
  buffers : Buffers Json
  resent : Bool

/-- The server, the requests that may still arrive although their posts failed, and the clients. -/
structure System (C : Type) where
  files : Files
  records : List ServerMetaData
  metaQueue : List ServerMetaData
  dataQueue : List HashData
  late : List (String × Json)
  clients : C → Client

/-- A client that was started for the first time. -/
def Client.started : Client := ⟨.ret (), none, ⟨Database.created, .idle⟩, false⟩

/-- Nothing was saved yet. -/
def System.initial {C : Type} : System C := ⟨fun _ => none, [], [], [], [], fun _ => Client.started⟩

/-- One step: a client begins with a file; the server processes the post of a client; a post returns; a request is kept, seen or not
by the query that runs; the file is entered in the cache, or its directory in a queue; the server processes the row that is being
transmitted; the second thread makes a step; a request arrives late; `meta_data_thread` or `data_thread` takes something out of its queue. -/
inductive SystemOp (C : Type) where
  | start (c : C) (file : FileToSave)
  | serve (c : C)
  | deliver (c : C) (success : Bool)
  | keep (c : C) (seen : Bool)
  | enter (c : C)
  | serveRow (c : C)
  | transmit (c : C) (op : BufferOp Json)
  | arrive (n : Nat)
  | metaDataThread
  | dataThread

section

variable {C : Type} [DecidableEq C]

/-- One client changes. -/
def System.setClient (s : System C) (c : C) (client : Client) : System C :=
  { s with clients := Function.update s.clients c client }

/-- What a request pushes into the queues. -/
def System.push (s : System C) (processed : Processed) : System C :=
  { s with metaQueue := s.metaQueue ++ processed.metaQueue, dataQueue := s.dataQueue ++ processed.dataQueue }

/-- The post of a request failed: if the server did not process it, it may still arrive. -/
def System.failed (s : System C) (processed : Bool) (request : Option (String × Json)) : System C :=
  if processed then s else { s with late := s.late ++ request.toList }

variable (backend : FileBackend)

/-- The server processes the post that is under way, if it has a body, and once. -/
def serve (s : System C) (c : C) : Option (System C) :=
  let client := s.clients c
  match client.thread, client.served with
  | .call (.postUrl url (some body) _) _, none =>
    let processed := processReceivedData (some backend) s.files url body
    some ((s.push processed).setClient c { client with served := processed.answer })
  | _, _ => none

/-- A post returns: with the answer of the server, or without. -/
def deliver (s : System C) (c : C) (success : Bool) : Option (System C) :=
  let client := s.clients c
  match client.thread with
  | .call (.postUrl url readbuffer _) k =>
    if success then client.served.map fun answer => s.setClient c { client with thread := k (some answer), served := none }
    else
      some ((s.failed client.served.isSome (readbuffer.map fun body => (url, body))).setClient c
        { client with thread := k none, served := none })
  | _ => none

/-- `db_save_buffer` in the first thread. -/
def keep (s : System C) (c : C) (seen : Bool) : Option (System C) :=
  let client := s.clients c
  match client.thread with
  | .call (.dbSaveBuffer url buffer _) k =>
    (bufferStep client.buffers (.save (some url) buffer seen)).map fun (buffers, _) =>
      s.setClient c { client with thread := k (), buffers := buffers }
  | _ => none

/-- `db_save_meta_data` and the push into `dir_queue`. -/
def enter (s : System C) (c : C) : Option (System C) :=
  let client := s.clients c
  match client.thread with
  | .call (.dbSaveMetaData _ _) k => some (s.setClient c { client with thread := k () })
  | .call (.dirQueuePush _) k => some (s.setClient c { client with thread := k () })
  | _ => none

/-- The server processes the row that is being transmitted, once. -/
def serveRow (s : System C) (c : C) : Option (System C) :=
  let client := s.clients c
  match client.buffers.transmission, client.resent with
  | .sending (row :: _), false =>
    some ((s.push (processReceivedData (some backend) s.files row.url row.data)).setClient c { client with resent := true })
  | _, _ => none

/-- The row that is being transmitted. -/
def Client.currentRow (client : Client) : Option (String × Json) :=
  match client.buffers.transmission with
  | .sending (row :: _) => some (row.url, row.data)
  | _ => none

/-- A step of `db_transmit_buffers`. A post of a row succeeds only when the server processed it. Rows are saved by the other thread,
and the client is not stopped. -/
def transmit (s : System C) (c : C) (op : BufferOp Json) : Option (System C) :=
  let client := s.clients c
  let moved := fun (s : System C) => (bufferStep client.buffers op).map fun (buffers, _) =>
    s.setClient c { client with buffers := buffers, resent := false }
  match op with
  | .save _ _ _ => none
  | .stop => none
  | .post true => if client.resent = true then moved s else none
  | .post false => moved (s.failed client.resent client.currentRow)
  | _ => moved s

/-- A request whose post failed arrives. -/
def arrive (s : System C) (n : Nat) : Option (System C) :=
  s.late[n]?.map fun (url, body) =>
    { s.push (processReceivedData (some backend) s.files url body) with late := s.late.eraseIdx n }

/-- `meta_data_thread`. -/
def metaDataThread (s : System C) : Option (System C) :=
  match s.metaQueue with
  | [] => none
  | smeta :: metaQueue => some { s with records := s.records ++ [smeta], metaQueue := metaQueue }

/-- `data_thread`. -/
def dataThread (s : System C) : Option (System C) :=
  match s.dataQueue with
  | [] => none
  | hashData :: dataQueue => some { s with files := fileStoreData backend s.files hashData, dataQueue := dataQueue }

variable (sha256 : Bytes → Hash) (z : Zlib)

/-- A client begins with a file when it is done with the one before. -/
def start (s : System C) (c : C) (file : FileToSave) : Option (System C) :=
  match (s.clients c).thread with
  | .ret () => some (s.setClient c { s.clients c with thread := saveOneFile sha256 z file })
  | _ => none

/-- A step; none when it is not possible. -/
def nextSystem (s : System C) : SystemOp C → Option (System C)
  | .start c file => start sha256 z s c file
  | .serve c => serve backend s c
  | .deliver c success => deliver s c success
  | .keep c seen => keep s c seen
  | .enter c => enter s c
  | .serveRow c => serveRow backend s c
  | .transmit c op => transmit s c op
  | .arrive n => arrive backend s n
  | .metaDataThread => metaDataThread s
  | .dataThread => dataThread backend s

/-- A step as runs take it; it leaves no events. -/
def systemStep (s : System C) (op : SystemOp C) : Option (System C × List Empty) :=
  (nextSystem backend sha256 z s op).map fun s' => (s', [])

/-- The step does not begin with a file whose blocks, in lists as they are handed over, can overflow the counter of
`send_all_data_to_server`. -/
def SystemOp.CounterFits : SystemOp C → Prop
  | .start _ file => file.excluded = false → file.metaData.inCache = false → file.CounterFits sha256 z
  | _ => True

end

/-! ## Safety -/

section

variable {C : Type}

/-- A block is carried by a client: by the request under way or that is being kept, by the list it is still sending, or by a request
that was kept. -/
def Client.Carries (client : Client) (h : Hash) : Prop :=
  (∃ op k, client.thread = .call op k ∧ h ∈ op.carried) ∨
    ∃ row ∈ client.buffers.database.buffers, h ∈ blocksOf row.url row.data

/-- A block is carried by an item of `data_queue`. -/
def System.Queued (s : System C) (h : Hash) : Prop := ∃ hd ∈ s.dataQueue, hd.hash = some h.bytes ∧ hd.data ≠ none

/-- A record that is stored, queued, in flight or buffered. -/
def System.HasRecord (s : System C) (smeta : ServerMetaData) : Prop :=
  smeta ∈ s.records ∨ smeta ∈ s.metaQueue ∨ (∃ request ∈ s.late, smeta ∈ recordsOf request.1 request.2) ∨
    ∃ c, (∃ op k, (s.clients c).thread = .call op k ∧ smeta ∈ op.records) ∨
      ∃ row ∈ (s.clients c).buffers.database.buffers, smeta ∈ recordsOf row.url row.data

/-- Every hash of every record has its block stored, queued, or carried by a client. -/
def System.Safe (backend : FileBackend) (s : System C) : Prop :=
  ∀ smeta, s.HasRecord smeta → ∀ h ∈ smeta.hashs,
    hasBlock backend s.files h = true ∨ s.Queued h ∨ ∃ c, (s.clients c).Carries h

/-- Nothing is left to do: the queues are empty, the clients are done with their files, and no request is left to transmit. -/
def System.Drained (s : System C) : Prop :=
  s.metaQueue = [] ∧ s.dataQueue = [] ∧
    ∀ c, (s.clients c).thread = .ret () ∧ buffersToTransmit (s.clients c).buffers.database = []

end

end Sauvegarde
