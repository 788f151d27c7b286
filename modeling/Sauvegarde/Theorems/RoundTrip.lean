import Sauvegarde.Theorems.Dedup
import Sauvegarde.Theorems.Origin

/-!
# What was saved is restored

Any number of clients save files to one server while posts fail, requests are kept and arrive late. When nothing is left to do, the
server has a record of every file that was saved, every record is that of such a file, and what a restoration asks for with it is
written as the bytes of the file.
-/

namespace Sauvegarde

/-- A request for the blocks of a record is answered from the files of the server. -/
def servedFromFiles (backend : FileBackend) (files : Files) (sha256 : Bytes → Hash) (z : Zlib) (header : Bytes) : Option Json :=
  servedHashArray sha256 z (fun hexHash => hexHash.bind (fileRetrieveData backend files)) header

/-- Every batch in which the blocks of the file are asked for is shorter than 2^32 bytes. -/
def FileToSave.BatchesFit (file : FileToSave) : Prop :=
  ∀ i, (Slices.slice (calculateMaxNumberOfHashs file.metaData.size) file.source.blocks i).flatten.length < 2 ^ 32

section

variable {C : Type}

/-- The files that the clients begin with. -/
def begunFiles (ops : List (SystemOp C)) : Set (C × FileToSave) := {p | SystemOp.start p.1 p.2 ∈ ops}

/-- The blocks of these files. -/
def begunBlocks (ops : List (SystemOp C)) : Set Bytes := {block | ∃ p ∈ begunFiles ops, block ∈ p.2.source.blocks}

/-- What SHA-256 and zlib have to do with the blocks of the files: blocks have different hashs, and no block is longer than
`compress_buffer` can be told. -/
structure BlocksSound (sha256 : Bytes → Hash) (ops : List (SystemOp C)) : Prop where
  apart : Set.InjOn sha256 (begunBlocks ops)
  short : ∀ block ∈ begunBlocks ops, block.length < 2 ^ 32

/-- The records that reached the server. -/
def System.arrived (s : System C) : Set ServerMetaData := {smeta | smeta ∈ s.records ∨ smeta ∈ s.metaQueue}

end

namespace RoundTripAux

open BuffersAux SharingAux OriginAux

section

variable {C : Type} (sha256 : Bytes → Hash) (z : Zlib) (files : Set (C × FileToSave))

/-! ## The invariant -/

/-- A block of one of the files. -/
def BlockFrom (hd : HashData) : Prop := ∃ p ∈ files, BlockOf sha256 z p.2 hd

/-- The record of one of the files. -/
def RecordFrom (smeta : ServerMetaData) : Prop := ∃ p ∈ files, p.2.Saved ∧ RecordOf sha256 p.2 smeta

/-- A request that brings blocks and records of the files. -/
structure RequestFrom (url : String) (body : Json) : Prop where
  blocks : ∀ hd ∈ broughtBlocks url body, BlockFrom sha256 z files hd
  records : ∀ smeta ∈ recordsOf url body, RecordFrom sha256 files smeta

/-- Everything that the server has comes from the files. -/
structure ServerBooks (backend : FileBackend) (s : System C) : Prop where
  records : ∀ smeta ∈ s.records, RecordFrom sha256 files smeta
  metaQueue : ∀ smeta ∈ s.metaQueue, RecordFrom sha256 files smeta
  dataQueue : ∀ hd ∈ s.dataQueue, BlockFrom sha256 z files hd
  late : ∀ request ∈ s.late, RequestFrom sha256 z files request.1 request.2
  stored : ∃ stores : List HashData, s.files = stores.foldl (fileStoreData backend) (fun _ => none) ∧
    ∀ hd ∈ stores, BlockFrom sha256 z files hd

/-- What a client did and has still to do: its requests come from the files, the records of its own files will have been kept or
accepted when its thread ends, and what was kept or accepted is in a row or reached the server. `own` are the files that it began
with. -/
structure ClientBooks (arrived : Set ServerMetaData) (own : Set FileToSave) (client : Client) (history : List ClientEvent)
    (trace : List (BufferEvent Json)) : Prop where
  thread : client.thread.AllRuns (fun op => ∀ url body, op.request = some (url, body) → RequestFrom sha256 z files url body)
    fun events _ => ∀ file ∈ own, file.Saved → file.Writable → RecordKept sha256 file (history ++ events)
  rows : ∀ row ∈ client.buffers.database.buffers, RequestFrom sha256 z files row.url row.data
  saved : ∀ e ∈ history, acceptedOrKept e → ∀ smeta ∈ e.op.records,
    smeta ∈ arrived ∨ ∃ row ∈ client.buffers.database.buffers, smeta ∈ recordsOf row.url row.data
  served : ∀ answer, client.served = some answer → ∃ url body held k,
    client.thread = .call (.postUrl url (some body) held) k ∧ ∀ smeta ∈ recordsOf url body, smeta ∈ arrived
  kept : Kept trace client.buffers
  posted : ∀ row, .posted row true ∈ trace → ∀ smeta ∈ recordsOf row.url row.data, smeta ∈ arrived
  resent : client.resent = true → ∃ row rows, client.buffers.transmission = .sending (row :: rows) ∧
    ∀ smeta ∈ recordsOf row.url row.data, smeta ∈ arrived

/-- The invariant. -/
structure Books (backend : FileBackend) (own : C → Set FileToSave) (s : System C) (history : C → List ClientEvent)
    (trace : C → List (BufferEvent Json)) : Prop where
  server : ServerBooks sha256 z files backend s
  client : ∀ c, ClientBooks sha256 z files s.arrived (own c) (s.clients c) (history c) (trace c)

end

variable {C : Type} {sha256 : Bytes → Hash} {z : Zlib} {files : Set (C × FileToSave)} {backend : FileBackend}

/-! ## The server -/

/-- A request is processed. -/
theorem ServerBooks.push {s : System C} (h : ServerBooks sha256 z files backend s) {url : String} {body : Json}
    (hrequest : RequestFrom sha256 z files url body) :
    ServerBooks sha256 z files backend (s.push (processReceivedData (some backend) s.files url body)) where
  records := h.records
  metaQueue := fun smeta hsmeta =>
    (List.mem_append.mp hsmeta).elim (h.metaQueue smeta) fun hnew => hrequest.records smeta (mem_recordsOf.mpr hnew)
  dataQueue := fun hd hhd => by
    refine (List.mem_append.mp hhd).elim (h.dataQueue hd) fun hnew => hrequest.blocks hd ?_
    rwa [broughtBlocks, (queues_processReceivedData none (some backend) (fun _ => none) s.files url body).2]
  late := h.late
  stored := h.stored

/-- The records of a request that is processed have arrived, and what had arrived is there. -/
theorem arrived_push (s : System C) (url : String) (body : Json) :
    s.arrived ⊆ (s.push (processReceivedData (some backend) s.files url body)).arrived ∧
      ∀ smeta ∈ recordsOf url body, smeta ∈ (s.push (processReceivedData (some backend) s.files url body)).arrived :=
  ⟨fun _ hsmeta => hsmeta.imp_right fun hqueue => List.mem_append_left _ hqueue,
    fun _ hsmeta => Or.inr (List.mem_append_right _ (mem_recordsOf.mp hsmeta))⟩

/-- A post fails; its request may arrive later. -/
theorem ServerBooks.failed {s : System C} (h : ServerBooks sha256 z files backend s) (processed : Bool)
    {request : Option (String × Json)} (hrequest : ∀ url body, request = some (url, body) → RequestFrom sha256 z files url body) :
    ServerBooks sha256 z files backend (s.failed processed request) ∧ (s.failed processed request).arrived = s.arrived ∧
      (s.failed processed request).clients = s.clients := by
  cases processed with
  | true => exact ⟨h, rfl, rfl⟩
  | false =>
    refine ⟨{ h with late := fun late hlate => ?_ }, rfl, rfl⟩
    rcases List.mem_append.mp hlate with hlate | hlate
    · exact h.late late hlate
    · exact hrequest _ _ (Option.mem_toList.mp hlate)

/-- A request whose post failed arrives. -/
theorem ServerBooks.arrive {s s' : System C} {n : Nat} (h : ServerBooks sha256 z files backend s)
    (hstep : arrive backend s n = some s') :
    ServerBooks sha256 z files backend s' ∧ s.arrived ⊆ s'.arrived ∧ s'.clients = s.clients := by
  obtain ⟨⟨url, body⟩, hrequest, rfl⟩ := Option.map_eq_some_iff.mp hstep
  have hpush := h.push (h.late _ (List.mem_of_getElem? hrequest))
  refine ⟨{ hpush with late := fun request hmem => h.late request (List.mem_of_mem_eraseIdx hmem) }, ?_, rfl⟩
  exact (arrived_push s url body).1

/-- `meta_data_thread` takes a record out of its queue. -/
theorem ServerBooks.metaDataThread {s s' : System C} (h : ServerBooks sha256 z files backend s)
    (hstep : metaDataThread s = some s') :
    ServerBooks sha256 z files backend s' ∧ s.arrived ⊆ s'.arrived ∧ s'.clients = s.clients := by
  unfold Sauvegarde.metaDataThread at hstep
  split at hstep
  · cases hstep
  · rename_i smeta metaQueue hqueue
    obtain rfl := Option.some.inj hstep
    have hmeta := h.metaQueue
    rw [hqueue] at hmeta
    refine ⟨{ h with records := fun smeta' hmem => ?_, metaQueue := fun smeta' hmem => ?_ }, fun smeta' hmem => ?_, rfl⟩
    · rcases List.mem_append.mp hmem with hmem | hmem
      · exact h.records smeta' hmem
      · exact hmeta smeta' (List.mem_singleton.mp hmem ▸ List.mem_cons_self)
    · exact hmeta smeta' (List.mem_cons_of_mem _ hmem)
    · rcases hmem with hmem | hmem
      · exact Or.inl (List.mem_append_left _ hmem)
      · rw [hqueue] at hmem
        rcases List.mem_cons.mp hmem with rfl | hmem
        · exact Or.inl (List.mem_append_right _ (List.mem_singleton_self _))
        · exact Or.inr hmem

/-- `data_thread` takes a block out of its queue. -/
theorem ServerBooks.dataThread {s s' : System C} (h : ServerBooks sha256 z files backend s)
    (hstep : dataThread backend s = some s') :
    ServerBooks sha256 z files backend s' ∧ s.arrived ⊆ s'.arrived ∧ s'.clients = s.clients := by
  unfold Sauvegarde.dataThread at hstep
  split at hstep
  · cases hstep
  · rename_i hashData dataQueue hqueue
    obtain rfl := Option.some.inj hstep
    have hdata := h.dataQueue
    rw [hqueue] at hdata
    obtain ⟨stores, hfiles, hstores⟩ := h.stored
    refine ⟨{ h with dataQueue := fun hd hmem => hdata hd (List.mem_cons_of_mem _ hmem), stored := ?_ }, fun _ => id, rfl⟩
    refine ⟨stores ++ [hashData], by rw [List.foldl_append, ← hfiles]; rfl, fun hd hmem => ?_⟩
    rcases List.mem_append.mp hmem with hmem | hmem
    · exact hstores hd hmem
    · exact hdata hd (List.mem_singleton.mp hmem ▸ List.mem_cons_self)

/-! ## A client -/

/-- What was true of a client stays true when more records have arrived. -/
theorem ClientBooks.mono {arrived arrived' : Set ServerMetaData} {own : Set FileToSave} {client : Client}
    {history : List ClientEvent} {trace : List (BufferEvent Json)}
    (h : ClientBooks sha256 z files arrived own client history trace) (harrived : arrived ⊆ arrived') :
    ClientBooks sha256 z files arrived' own client history trace where
  thread := h.thread
  rows := h.rows
  saved := fun e he haccepted smeta hsmeta => (h.saved e he haccepted smeta hsmeta).imp_left (harrived ·)
  served := by
    intro answer hanswer
    obtain ⟨url, body, held, k, hthread, hrecords⟩ := h.served answer hanswer
    exact ⟨url, body, held, k, hthread, fun smeta hsmeta => harrived (hrecords smeta hsmeta)⟩
  kept := h.kept
  posted := fun row hrow smeta hsmeta => harrived (h.posted row hrow smeta hsmeta)
  resent := by
    intro hresent
    obtain ⟨row, rows, htransmission, hrecords⟩ := h.resent hresent
    exact ⟨row, rows, htransmission, fun smeta hsmeta => harrived (hrecords smeta hsmeta)⟩

/-- No post that has a body is under way: nothing was served. -/
theorem ClientBooks.served_none {arrived : Set ServerMetaData} {own : Set FileToSave} {client : Client}
    {history : List ClientEvent} {trace : List (BufferEvent Json)}
    (h : ClientBooks sha256 z files arrived own client history trace)
    (hthread : ∀ url body held k, client.thread ≠ .call (.postUrl url (some body) held) k) : client.served = none := by
  by_contra hserved
  obtain ⟨answer, hanswer⟩ := Option.ne_none_iff_exists'.mp hserved
  obtain ⟨url, body, held, k, hcall, _⟩ := h.served answer hanswer
  exact hthread url body held k hcall

/-- The request of the operation that is called comes from the files. -/
theorem ClientBooks.request {arrived : Set ServerMetaData} {own : Set FileToSave} {client : Client}
    {history : List ClientEvent} {trace : List (BufferEvent Json)}
    (h : ClientBooks sha256 z files arrived own client history trace) {op : ClientOp} {k : ClientRes op → ClientProg Unit}
    (hthread : client.thread = .call op k) {url : String} {body : Json} (hrequest : op.request = some (url, body)) :
    RequestFrom sha256 z files url body := by
  have hruns := h.thread
  rw [hthread] at hruns
  exact (Prog.allRuns_call.mp hruns).1 url body hrequest

/-- An operation returned: a record that was accepted or kept with it is in a row or has arrived. -/
theorem ClientBooks.returned {arrived : Set ServerMetaData} {own : Set FileToSave} {client : Client}
    {history : List ClientEvent} {trace trace' : List (BufferEvent Json)} {buffers : Buffers Json} {op : ClientOp}
    {k : ClientRes op → ClientProg Unit} (h : ClientBooks sha256 z files arrived own client history trace)
    (hthread : client.thread = .call op k) (answer : ClientRes op)
    (hold : ∀ row ∈ client.buffers.database.buffers, row ∈ buffers.database.buffers)
    (hrows : ∀ row ∈ buffers.database.buffers, RequestFrom sha256 z files row.url row.data)
    (haccepted : acceptedOrKept ⟨op, answer⟩ → ∀ smeta ∈ op.records,
      smeta ∈ arrived ∨ ∃ row ∈ buffers.database.buffers, smeta ∈ recordsOf row.url row.data)
    (hkept : Kept trace' buffers) (hposted : ∀ row, .posted row true ∈ trace' → .posted row true ∈ trace)
    (htransmission : ∀ row rows, client.buffers.transmission = .sending (row :: rows) →
      ∃ rows', buffers.transmission = .sending (row :: rows')) :
    ClientBooks sha256 z files arrived own ⟨k answer, none, buffers, client.resent⟩ (history ++ [⟨op, answer⟩]) trace' where
  thread := by
    have hruns := h.thread
    rw [hthread] at hruns
    refine ((Prog.allRuns_call.mp hruns).2 answer).mono fun events _ hfiles file hown hsaved hwritable => ?_
    rw [List.append_assoc]
    exact hfiles file hown hsaved hwritable
  rows := hrows
  saved := by
    intro e he hkept smeta hsmeta
    rcases List.mem_append.mp he with he | he
    · refine (h.saved e he hkept smeta hsmeta).imp_right ?_
      rintro ⟨row, hrow, hrecord⟩
      exact ⟨row, hold row hrow, hrecord⟩
    · obtain rfl := List.mem_singleton.mp he
      exact haccepted hkept smeta hsmeta
  served := fun answer hanswer => absurd hanswer.symm (Option.some_ne_none _)
  kept := hkept
  posted := fun row hrow => h.posted row (hposted row hrow)
  resent := by
    intro hresent
    obtain ⟨row, rows, hrows, hrecords⟩ := h.resent hresent
    obtain ⟨rows', hrows'⟩ := htransmission row rows hrows
    exact ⟨row, rows', hrows', hrecords⟩

/-! ## What the invariant gives -/

variable {own : C → Set FileToSave}

/-- The files that a client began with. -/
def ownFiles (ops : List (SystemOp C)) (c : C) : Set FileToSave := {file | SystemOp.start c file ∈ ops}

/-- Before anything is saved. -/
theorem Books.initial : Books sha256 z files backend (ownFiles []) System.initial (fun _ => []) (fun _ => []) where
  server := ⟨fun _ hmem => absurd hmem List.not_mem_nil, fun _ hmem => absurd hmem List.not_mem_nil,
    fun _ hmem => absurd hmem List.not_mem_nil, fun _ hmem => absurd hmem List.not_mem_nil,
    [], rfl, fun _ hmem => absurd hmem List.not_mem_nil⟩
  client := fun _ => {
    thread := Prog.allRuns_ret.mpr fun _ hown => absurd hown List.not_mem_nil
    rows := fun _ hmem => absurd hmem List.not_mem_nil
    saved := fun _ hmem => absurd hmem List.not_mem_nil
    served := fun _ hanswer => absurd hanswer.symm (Option.some_ne_none _)
    kept := kept_created
    posted := fun _ hmem => absurd hmem List.not_mem_nil
    resent := fun hresent => absurd hresent Bool.false_ne_true }

/-- When nothing is left to do, the record of every file that a client saved is stored. -/
theorem Books.drained {s : System C} {history : C → List ClientEvent} {trace : C → List (BufferEvent Json)}
    (h : Books sha256 z files backend own s history trace) (hdrained : s.Drained) {c : C} {file : FileToSave}
    (hown : file ∈ own c) (hsaved : file.Saved) (hwritable : file.Writable) :
    ∃ smeta ∈ s.records, RecordOf sha256 file smeta := by
  obtain ⟨hqueue, _, hclients⟩ := hdrained
  have hclient := h.client c
  have hdone := hclient.thread
  rw [(hclients c).1, Prog.allRuns_ret, List.append_nil] at hdone
  have hrecords : ∀ smeta ∈ s.arrived, smeta ∈ s.records := by
    rintro smeta (hmem | hmem)
    · exact hmem
    · rw [hqueue] at hmem
      exact absurd hmem List.not_mem_nil
  obtain ⟨e, he, haccepted, smeta, hsmeta, hrecord⟩ := hdone file hown hsaved hwritable
  refine ⟨smeta, hrecords smeta ?_, hrecord⟩
  rcases hclient.saved e he haccepted smeta hsmeta with harrived | ⟨row, hrow, hmem⟩
  · exact harrived
  · -- a row that is left was recorded, so its post succeeded
    have hid : row.bufferId ∈ (s.clients c).buffers.database.transmited := by
      by_contra hid
      have hleft := (mem_buffersToTransmit hrow hid).1
      rw [(hclients c).2] at hleft
      exact absurd hleft List.not_mem_nil
    exact hclient.posted row (hclient.kept.posted (hclient.kept.buffered row hrow) hid) smeta hmem

/-! ## Blocks -/

variable {s : System C}

/-- What is made of a buffer that is not too long holds the text, and can be stored. -/
theorem holdsText_hashDataOfBuffer (hz : z.Writes) {file : FileToSave} {buffer : Bytes} (hbuffer : buffer ∈ file.source.blocks)
    (hshort : buffer.length < 2 ^ 32) :
    HoldsText z (hashDataOfBuffer sha256 z file.main.cmptype buffer) buffer ∧
      StorableBlock (hashDataOfBuffer sha256 z file.main.cmptype buffer) := by
  obtain ⟨bytes, hblock, _⟩ := isBlock_hashDataOfBuffer sha256 hz file.main.cmptype_allowed (file.source.blocks_len buffer hbuffer)
  have hlength : (Int64.ofNat buffer.length).toInt = buffer.length := Int64.toInt_ofNat_of_lt (by omega)
  have hcmptype : (hashDataOfBuffer sha256 z file.main.cmptype buffer).cmptype = file.main.cmptype := by
    rw [hashDataOfBuffer, newHashData]
    split <;> rfl
  refine ⟨⟨⟨bytes, hblock.data, hblock.read⟩, ?_⟩, _, bytes, hblock, by rw [hcmptype]; exact file.main.cmptype_allowed⟩
  by_cases hnone : file.main.cmptype = COMPRESS_NONE_TYPE
  · exact Or.inl ⟨hcmptype.trans hnone, by rw [hashDataOfBuffer, newHashData, if_neg (not_not.mpr hnone)]⟩
  · have hzlib : file.main.cmptype = COMPRESS_ZLIB_TYPE := by
      have hallowed := file.main.cmptype_allowed
      simpa [isCompressTypeAllowed, hnone] using hallowed
    have hword : (Int64.ofNat buffer.length).toUInt64.toUInt32.toNat = buffer.length := by
      rw [UInt64.toNat_toUInt32, (length_int64 hlength).2.1, Nat.mod_eq_of_lt hshort]
    refine Or.inr ⟨hcmptype.trans hzlib, ?_, ?_⟩
    · rw [hashDataOfBuffer, newHashData, if_pos hnone, compressBuffer, if_pos hzlib, zlibCompressBuffer, hword, List.take_length]
    · rw [hashDataOfBuffer, newHashData, if_pos hnone]
      exact hlength

/-- A block that is there after some were stored is one of them. -/
theorem retrieve_of_hasBlock {stores : List HashData} (hstores : ∀ hd ∈ stores, StorableBlock hd) {h : Hash}
    (hblock : hasBlock backend (stores.foldl (fileStoreData backend) fun _ => none) h = true) :
    ∃ hd ∈ stores, hd.hash = some h.bytes ∧
      fileRetrieveData backend (stores.foldl (fileStoreData backend) fun _ => none) (hexText h.bytes) = some hd := by
  induction stores using List.reverseRecOn with
  | nil =>
    rw [List.foldl_nil, hasBlock_eq] at hblock
    cases hblock
  | append_singleton stores hd ih =>
    have hlast := hstores hd (List.mem_append_right _ List.mem_cons_self)
    rw [List.foldl_append, List.foldl_cons, List.foldl_nil] at hblock ⊢
    rw [BlockStoreAux.fileRetrieveData_fileStoreData _ _ hlast]
    by_cases heq : hd.hash = some h.bytes
    · exact ⟨hd, List.mem_append_right _ List.mem_cons_self, heq, if_pos heq⟩
    · obtain ⟨g, data, hg, _⟩ := id hlast
      have hbefore := ((hasBlock_fileStoreData hg.hash).mp hblock).resolve_right fun hsame =>
        heq (hsame.2 ▸ hg.hash)
      obtain ⟨hd', hmem, hhash, hretrieve⟩ := ih (fun hd' hmem => hstores hd' (List.mem_append_left _ hmem)) hbefore
      exact ⟨hd', List.mem_append_left _ hmem, hhash, (if_neg heq).trans hretrieve⟩

/-- A block that is stored is retrieved as the text that it is the hash of. -/
theorem holdsText_of_hasBlock {ops : List (SystemOp C)} (hz : z.Writes) (hsound : BlocksSound sha256 ops)
    (h : ServerBooks sha256 z (begunFiles ops) backend s) {block : Bytes} (hbegun : block ∈ begunBlocks ops)
    (hblock : hasBlock backend s.files (sha256 block) = true) :
    ∃ hd, fileRetrieveData backend s.files (hexText (sha256 block).bytes) = some hd ∧ HoldsText z hd block := by
  obtain ⟨stores, hfiles, hstores⟩ := h.stored
  have hheld : ∀ hd ∈ stores, ∃ buffer ∈ begunBlocks ops, hd.hash = some (sha256 buffer).bytes ∧ HoldsText z hd buffer ∧
      StorableBlock hd := by
    intro hd hhd
    obtain ⟨p, hp, buffer, hbuffer, rfl⟩ := hstores hd hhd
    have hmem : buffer ∈ begunBlocks ops := ⟨p, hp, hbuffer⟩
    exact ⟨buffer, hmem, hash_hashDataOfBuffer sha256 _ _, holdsText_hashDataOfBuffer hz hbuffer (hsound.short buffer hmem)⟩
  rw [hfiles] at hblock ⊢
  have hstorable : ∀ hd ∈ stores, StorableBlock hd := fun hd hhd => by
    obtain ⟨_, _, _, _, hstorable⟩ := hheld hd hhd
    exact hstorable
  obtain ⟨hd, hhd, hhash, hretrieve⟩ := retrieve_of_hasBlock hstorable hblock
  obtain ⟨buffer, hmem, hhash', htext, _⟩ := hheld hd hhd
  have hsame : sha256 buffer = sha256 block := Hash.ext (Option.some.inj (hhash'.symm.trans hhash))
  exact ⟨hd, hretrieve, hsound.apart hmem hbegun hsame ▸ htext⟩

/-- The loop of `restore_data_to_stream` writes the texts of the blocks. -/
theorem restoreDataToStream_of_stored (hinverts : z.Inverts) {retrieveData : Option CString → Option HashData}
    {text : Hash → Bytes} {hashList : List HashData} {hs : List Hash} (hhashs : HashsAre hashList hs)
    (hstored : ∀ h ∈ hs, ∃ hd, retrieveData (hashToString (some h.bytes)) = some hd ∧ HoldsText z hd (text h)) {max : Nat}
    (hmax : 0 < max) (hfits : ∀ i, ((Slices.slice max hs i).flatMap text).length < 2 ^ 32) :
    restoreDataToStream (servedHashArray sha256 z retrieveData) hashList max = hs.flatMap text := by
  have hloop := @RestoringAux.loop_restoringAt z retrieveData text max hashList hs hinverts sha256 hhashs hstored hmax hfits
    (hs.length ⌈/⌉ max) 0 (by omega)
  rw [Nat.zero_add, if_pos rfl] at hloop
  have hwritten := Restoring.written_loop hmax _ hloop
  have hall : hs.take (hs.length ⌈/⌉ max * max) = hs :=
    List.take_of_length_le (List.drop_eq_nil_iff.mp ((Slices.drop_eq_nil_iff hmax hs _).mpr le_rfl))
  simpa [RestoringAux.restoringAt, hall] using hwritten.symm

/-- A record whose blocks are stored is restored as its file. -/
theorem restores_of_blocks {ops : List (SystemOp C)} (hz : z.Writes) (hinverts : z.Inverts) (hsound : BlocksSound sha256 ops)
    (h : ServerBooks sha256 z (begunFiles ops) backend s) {c : C} {file : FileToSave} (hfile : (c, file) ∈ begunFiles ops)
    (hfits : file.BatchesFit) {list : List HashData} (hlist : HashsAre list (file.blockHashs sha256))
    (hblocks : ∀ g ∈ file.blockHashs sha256, hasBlock backend s.files g = true) :
    restoreDataToStream (servedFromFiles backend s.files sha256 z) list (calculateMaxNumberOfHashs file.metaData.size) =
      file.source.blocks.flatten := by
  have hbegun : ∀ block ∈ file.source.blocks, block ∈ begunBlocks ops := fun block hblock => ⟨(c, file), hfile, hblock⟩
  -- the text of a hash: SHA-256 is undone on the blocks
  obtain ⟨text, htext⟩ : ∃ text : Hash → Bytes, ∀ block ∈ file.source.blocks, text (sha256 block) = block :=
    ⟨Function.invFunOn sha256 (begunBlocks ops), fun block hblock => hsound.apart.leftInvOn_invFunOn (hbegun block hblock)⟩
  have hflat : ∀ blocks : List Bytes, (∀ block ∈ blocks, block ∈ file.source.blocks) →
      (blocks.map sha256).flatMap text = blocks.flatten := by
    intro blocks hsub
    rw [List.flatMap_map, List.flatten_eq_flatMap]
    exact List.flatMap_congr fun block hblock => htext block (hsub block hblock)
  have hmax : 0 < calculateMaxNumberOfHashs file.metaData.size := by
    unfold calculateMaxNumberOfHashs
    split_ifs <;> decide
  refine (@restoreDataToStream_of_stored sha256 z hinverts _ text _ _ hlist ?_ _ hmax ?_).trans
    (hflat file.source.blocks fun _ hblock => hblock)
  · intro g hg
    obtain ⟨block, hblock, rfl⟩ := List.mem_map.mp hg
    obtain ⟨hd, hretrieve, hholds⟩ := holdsText_of_hasBlock hz hsound h (hbegun block hblock) (hblocks _ hg)
    refine ⟨hd, ?_, by rwa [htext block hblock]⟩
    rw [hashToString_bytes]
    exact hretrieve
  · intro i
    have hslice : Slices.slice (calculateMaxNumberOfHashs file.metaData.size) (file.blockHashs sha256) i =
        (Slices.slice (calculateMaxNumberOfHashs file.metaData.size) file.source.blocks i).map sha256 := by
      rw [Slices.slice, Slices.slice, FileToSave.blockHashs, List.map_take, List.map_drop]
    rw [hslice, hflat _ fun block => Slices.mem_of_mem_slice]
    exact hfits i

/-! ## Steps -/

/-- A step of the server alone. -/
theorem Books.alone {s s' : System C} {history : C → List ClientEvent} {trace : C → List (BufferEvent Json)}
    (h : Books sha256 z files backend own s history trace)
    (hserver : ServerBooks sha256 z files backend s' ∧ s.arrived ⊆ s'.arrived ∧ s'.clients = s.clients) :
    ∃ history trace, Books sha256 z files backend own s' history trace := by
  obtain ⟨hserver, harrived, hclients⟩ := hserver
  refine ⟨history, trace, hserver, fun c => ?_⟩
  rw [hclients]
  exact (h.client c).mono harrived

variable [DecidableEq C]

/-- A step of one client, or of the server for it: the others stay as they are. -/
theorem Books.step {s s' : System C} {history : C → List ClientEvent} {trace : C → List (BufferEvent Json)} {c : C}
    {client : Client} {history' : List ClientEvent} {trace' : List (BufferEvent Json)}
    (h : Books sha256 z files backend own s history trace) (hserver : ServerBooks sha256 z files backend s')
    (harrived : s.arrived ⊆ s'.arrived) (hclients : s'.clients = Function.update s.clients c client)
    (hclient : ClientBooks sha256 z files s'.arrived (own c) client history' trace') :
    ∃ history trace, Books sha256 z files backend own s' history trace := by
  refine ⟨Function.update history c history', Function.update trace c trace', hserver, fun c' => ?_⟩
  rw [hclients]
  by_cases hc : c' = c
  · subst hc
    simpa using hclient
  · simpa [hc] using (h.client c').mono harrived

/-- A client begins with a file. -/
theorem Books.start {s s' : System C} {history : C → List ClientEvent} {trace : C → List (BufferEvent Json)} {c : C}
    {file : FileToSave} (hz : z.Writes) (h : Books sha256 z files backend own s history trace) (hfile : (c, file) ∈ files)
    (hstep : start sha256 z s c file = some s') :
    ∃ history trace, Books sha256 z files backend (Function.update own c (insert file (own c))) s' history trace := by
  unfold Sauvegarde.start at hstep
  split at hstep
  · rename_i hthread
    obtain rfl := Option.some.inj hstep
    have hclient := h.client c
    have hdone := hclient.thread
    rw [hthread, Prog.allRuns_ret, List.append_nil] at hdone
    have hserved : (s.clients c).served = none := hclient.served_none fun _ _ _ _ hcall => by
      rw [hthread] at hcall
      cases hcall
    refine ⟨history, trace, { h.server with }, fun c' => ?_⟩
    by_cases hc : c' = c
    · subst hc
      have hself : (s.setClient c' { s.clients c' with thread := saveOneFile sha256 z file }).clients c' =
          { s.clients c' with thread := saveOneFile sha256 z file } := Function.update_self _ _ _
      rw [hself, Function.update_self]
      refine { hclient with thread := ?_, served := fun answer hanswer => absurd (hserved.symm.trans hanswer) (by simp) }
      have hruns := @saveOneFile_origin sha256 z hz file
      intro events left hsteps
      obtain ⟨hcalls, hends⟩ := hruns events left hsteps
      refine ⟨fun op k hcall url body hrequest => ?_, fun u hret file' hown hsaved hwritable => ?_⟩
      · obtain ⟨hblocks, hrecords⟩ := hcalls op k hcall url body hrequest
        exact ⟨fun hd hhd => ⟨_, hfile, hblocks hd hhd⟩, fun smeta hsmeta => ⟨_, hfile, hrecords smeta hsmeta⟩⟩
      · rcases Set.mem_insert_iff.mp hown with rfl | hown
        · exact RecordKept.mono (hends u hret hsaved hwritable) fun e he => List.mem_append_right _ he
        · exact RecordKept.mono (hdone file' hown hsaved hwritable) fun e he => List.mem_append_left _ he
    · have hother : (s.setClient c { s.clients c with thread := saveOneFile sha256 z file }).clients c' = s.clients c' :=
        Function.update_of_ne hc _ _
      rw [hother, Function.update_of_ne hc]
      exact h.client c'
  · cases hstep

/-- The server processes the post of a client. -/
theorem Books.serve {s s' : System C} {history : C → List ClientEvent} {trace : C → List (BufferEvent Json)} {c : C}
    (h : Books sha256 z files backend own s history trace) (hstep : serve backend s c = some s') :
    ∃ history trace, Books sha256 z files backend own s' history trace := by
  unfold Sauvegarde.serve at hstep
  dsimp only at hstep
  split at hstep
  · rename_i url body held k hthread hserved
    obtain rfl := Option.some.inj hstep
    obtain ⟨harrived, hrecords⟩ := @arrived_push C backend s url body
    refine h.step { h.server.push ((h.client c).request hthread rfl) with } harrived rfl
      (?_ : ClientBooks sha256 z files _ (own c) _ (history c) (trace c))
    refine { (h.client c).mono harrived with served := fun answer _ => ?_ }
    exact ⟨url, body, held, k, hthread, hrecords⟩
  · cases hstep

/-- A post of a client returns. -/
theorem Books.deliver {s s' : System C} {history : C → List ClientEvent} {trace : C → List (BufferEvent Json)} {c : C}
    {success : Bool} (h : Books sha256 z files backend own s history trace) (hstep : deliver s c success = some s') :
    ∃ history trace, Books sha256 z files backend own s' history trace := by
  have hclient := h.client c
  unfold Sauvegarde.deliver at hstep
  dsimp only at hstep
  split at hstep
  · rename_i url readbuffer held k hthread
    split at hstep
    · -- the server processed the request, so its records have arrived
      obtain ⟨answer, hanswer, rfl⟩ := Option.map_eq_some_iff.mp hstep
      obtain ⟨url', body, held', k', hcall, hrecords⟩ := hclient.served answer hanswer
      obtain ⟨hop, _⟩ := Prog.call.inj (hthread.symm.trans hcall)
      obtain ⟨rfl, rfl, rfl⟩ := ClientOp.postUrl.inj hop
      refine h.step { h.server with } (fun _ => id) rfl (hclient.returned hthread (some answer : Option Json) (fun _ => id)
        hclient.rows ?_ hclient.kept (fun _ => id) fun _ rows hrows => ⟨rows, hrows⟩)
      rintro _ smeta ⟨_, _, hrequest, hsmeta⟩
      obtain ⟨rfl, rfl⟩ := Prod.mk.inj (Option.some.inj hrequest)
      exact Or.inl (hrecords smeta hsmeta)
    · obtain rfl := Option.some.inj hstep
      obtain ⟨hserver, harrived, hclients⟩ := @ServerBooks.failed C sha256 z files backend s h.server (s.clients c).served.isSome
        (readbuffer.map fun body => (url, body)) fun url' body hrequest => hclient.request hthread hrequest
      have hnot : ¬ acceptedOrKept ⟨.postUrl url readbuffer held, (none : Option Json)⟩ := by
        rintro ⟨text, htext⟩
        exact absurd htext.symm (Option.some_ne_none _)
      have hreturned := hclient.returned hthread (none : Option Json) (fun _ => id) hclient.rows
        (fun haccepted => absurd haccepted hnot) hclient.kept (fun _ => id) fun _ rows hrows => ⟨rows, hrows⟩
      rw [← harrived] at hreturned
      exact h.step { hserver with } (le_of_eq harrived.symm) (by rw [System.setClient, hclients]) hreturned
  · cases hstep

/-- A request is kept. -/
theorem Books.keep {s s' : System C} {history : C → List ClientEvent} {trace : C → List (BufferEvent Json)} {c : C}
    {seen : Bool} (h : Books sha256 z files backend own s history trace) (hstep : keep s c seen = some s') :
    ∃ history trace, Books sha256 z files backend own s' history trace := by
  have hclient := h.client c
  unfold Sauvegarde.keep at hstep
  dsimp only at hstep
  split at hstep
  · rename_i url buffer held k hthread
    obtain ⟨⟨buffers, events⟩, hsave, rfl⟩ := Option.map_eq_some_iff.mp hstep
    have hsaves := saves_of_bufferStep hsave
    have hserved : (s.clients c).served = none := hclient.served_none fun _ _ _ _ hcall => by
      obtain ⟨hop, _⟩ := Prog.call.inj (hthread.symm.trans hcall)
      cases hop
    simp only [hserved]
    refine h.step { h.server with } (fun _ => id) rfl
      (hclient.returned hthread () hsaves.old ?_ ?_ (hclient.kept.step hsave) ?_ hsaves.sending)
    · intro row hrow
      rcases hsaves.new row hrow with hrow | ⟨rfl, rfl⟩
      · exact hclient.rows row hrow
      · exact hclient.request hthread rfl
    · rintro _ smeta ⟨url', body, hrequest, hsmeta⟩
      obtain ⟨data, rfl, hdata⟩ := Option.map_eq_some_iff.mp hrequest
      obtain ⟨rfl, rfl⟩ := Prod.mk.inj hdata
      obtain ⟨row, hrow, rfl, rfl⟩ := hsaves.row _ rfl
      exact Or.inr ⟨row, hrow, hsmeta⟩
    · intro row hrow
      exact (List.mem_append.mp hrow).resolve_right (hsaves.posted row)
  · cases hstep

/-- The file is entered in the cache, or its directory in the queue. -/
theorem Books.enter {s s' : System C} {history : C → List ClientEvent} {trace : C → List (BufferEvent Json)} {c : C}
    (h : Books sha256 z files backend own s history trace) (hstep : enter s c = some s') :
    ∃ history trace, Books sha256 z files backend own s' history trace := by
  have hclient := h.client c
  -- neither operation has a request
  have hreturned : ∀ (op : ClientOp) (k : ClientRes op → ClientProg Unit) (answer : ClientRes op),
      (s.clients c).thread = .call op k → ¬ acceptedOrKept ⟨op, answer⟩ → (∀ url body held, op ≠ .postUrl url body held) →
      s' = s.setClient c { s.clients c with thread := k answer } →
      ∃ history trace, Books sha256 z files backend own s' history trace := by
    rintro op k answer hthread hnot hop rfl
    have hserved : (s.clients c).served = none := hclient.served_none fun _ _ _ _ hcall => by
      obtain ⟨hpost, _⟩ := Prog.call.inj (hthread.symm.trans hcall)
      exact hop _ _ _ hpost
    simp only [hserved]
    exact h.step { h.server with } (fun _ => id) rfl (hclient.returned hthread answer (fun _ => id) hclient.rows
      (fun haccepted => absurd haccepted hnot) hclient.kept (fun _ => id) fun _ rows hrows => ⟨rows, hrows⟩)
  unfold Sauvegarde.enter at hstep
  dsimp only at hstep
  split at hstep
  · rename_i metaData onlyMeta k hthread
    exact hreturned (.dbSaveMetaData metaData onlyMeta) k () hthread id (by simp) (Option.some.inj hstep).symm
  · rename_i directory k hthread
    exact hreturned (.dirQueuePush directory) k () hthread id (by simp) (Option.some.inj hstep).symm
  · cases hstep

/-- The server processes the row that a client transmits. -/
theorem Books.serveRow {s s' : System C} {history : C → List ClientEvent} {trace : C → List (BufferEvent Json)} {c : C}
    (h : Books sha256 z files backend own s history trace) (hstep : serveRow backend s c = some s') :
    ∃ history trace, Books sha256 z files backend own s' history trace := by
  unfold Sauvegarde.serveRow at hstep
  dsimp only at hstep
  split at hstep
  · rename_i row rows htransmission hresent
    obtain rfl := Option.some.inj hstep
    have hrow := Kept.current (h.client c).kept htransmission
    obtain ⟨harrived, hrecords⟩ := @arrived_push C backend s row.url row.data
    refine h.step { h.server.push ((h.client c).rows row hrow) with } harrived rfl
      (?_ : ClientBooks sha256 z files _ (own c) _ (history c) (trace c))
    exact { (h.client c).mono harrived with resent := fun _ => ⟨row, rows, htransmission, hrecords⟩ }
  · cases hstep

/-- A step on the tables, after a post that failed or not. -/
theorem Books.moved {s : System C} {history : C → List ClientEvent} {trace : C → List (BufferEvent Json)} {c : C}
    {op : BufferOp Json} {buffers : Buffers Json} {events : List (BufferEvent Json)} (processed : Bool)
    {request : Option (String × Json)} (h : Books sha256 z files backend own s history trace)
    (hbuffers : bufferStep (s.clients c).buffers op = some (buffers, events)) (hop : ∀ url buffer seen, op ≠ .save url buffer seen)
    (hresent : op = .post true → (s.clients c).resent = true)
    (hrequest : ∀ url body, request = some (url, body) → RequestFrom sha256 z files url body) :
    ∃ history trace, Books sha256 z files backend own
      ((s.failed processed request).setClient c { s.clients c with buffers := buffers, resent := false }) history trace := by
  have hclient := h.client c
  obtain ⟨hrows, hsent⟩ := bufferStep_transmits hbuffers hop
  have hkept := hclient.kept.step hbuffers
  have hposted : ∀ row, .posted row true ∈ trace c ++ events → ∀ smeta ∈ recordsOf row.url row.data, smeta ∈ s.arrived := by
    intro row hrow
    rcases List.mem_append.mp hrow with hrow | hrow
    · exact hclient.posted row hrow
    · -- the row was posted with success: the server had processed it
      obtain ⟨hpost, rows, htransmission⟩ := hsent row hrow
      obtain ⟨row', rows', htransmission', hrecords⟩ := hclient.resent (hresent hpost)
      obtain ⟨rfl, _⟩ := List.cons.inj (Transmission.sending.inj (htransmission.symm.trans htransmission'))
      exact hrecords
  obtain ⟨hserver, harrived, hclients⟩ := h.server.failed processed hrequest
  have hbooks : ClientBooks sha256 z files s.arrived (own c) { s.clients c with buffers := buffers, resent := false }
      (history c) (trace c ++ events) :=
    { hclient with
      rows := fun row hrow => hclient.rows row (hrows row hrow)
      saved := fun e he haccepted smeta hsmeta => by
        rcases hclient.saved e he haccepted smeta hsmeta with harrived | ⟨row, hrow, hrecord⟩
        · exact Or.inl harrived
        · -- a row that is gone had a post that succeeded
          by_cases hmem : row ∈ buffers.database.buffers
          · exact Or.inr ⟨row, hmem, hrecord⟩
          · have hgone := hkept.posted_of_gone (List.mem_append_left events (hclient.kept.buffered row hrow)) hmem
            exact Or.inl (hposted row hgone smeta hrecord)
      kept := hkept
      posted := hposted
      resent := fun hresent => absurd hresent Bool.false_ne_true }
  rw [← harrived] at hbooks
  exact h.step { hserver with } (le_of_eq harrived.symm) (by rw [System.setClient, hclients]) hbooks

/-- The second thread of a client makes a step. -/
theorem Books.transmit {s s' : System C} {history : C → List ClientEvent} {trace : C → List (BufferEvent Json)} {c : C}
    {op : BufferOp Json} (h : Books sha256 z files backend own s history trace) (hstep : transmit s c op = some s') :
    ∃ history trace, Books sha256 z files backend own s' history trace := by
  have hquiet : (∀ url buffer seen, op ≠ .save url buffer seen) → (op = .post true → (s.clients c).resent = true) →
      ((bufferStep (s.clients c).buffers op).map fun r =>
        s.setClient c { s.clients c with buffers := r.1, resent := false }) = some s' →
      ∃ history trace, Books sha256 z files backend own s' history trace := by
    intro hop hresent hmap
    obtain ⟨⟨buffers, events⟩, hbuffers, rfl⟩ := Option.map_eq_some_iff.mp hmap
    exact h.moved true hbuffers hop hresent fun _ _ hnone => absurd hnone (by simp : (none : Option (String × Json)) ≠ _)
  unfold Sauvegarde.transmit at hstep
  dsimp only at hstep
  split at hstep
  · cases hstep
  · cases hstep
  · split at hstep
    · rename_i hresent
      exact hquiet (by simp) (fun _ => hresent) hstep
    · cases hstep
  · obtain ⟨⟨buffers, events⟩, hbuffers, rfl⟩ := Option.map_eq_some_iff.mp hstep
    refine h.moved _ hbuffers (by simp) (by simp) ?_
    intro url body hrequest
    unfold Client.currentRow at hrequest
    split at hrequest
    · rename_i row rows htransmission
      obtain ⟨rfl, rfl⟩ := Prod.mk.inj (Option.some.inj hrequest)
      exact (h.client c).rows row (Kept.current (h.client c).kept htransmission)
    · cases hrequest
  · rename_i hsave _ hpost _
    exact hquiet hsave (fun hop => absurd hop hpost) hstep

/-! ## Runs -/

/-- Every step keeps the invariant. -/
theorem Books.next {s s' : System C} {history : C → List ClientEvent} {trace : C → List (BufferEvent Json)}
    {done : List (SystemOp C)} {op : SystemOp C} (hz : z.Writes)
    (h : Books sha256 z files backend (ownFiles done) s history trace) (hfile : ∀ c file, op = .start c file → (c, file) ∈ files)
    (hstep : nextSystem backend sha256 z s op = some s') :
    ∃ history trace, Books sha256 z files backend (ownFiles (done ++ [op])) s' history trace := by
  have hsame : (∀ c file, op ≠ .start c file) → ownFiles (done ++ [op]) = ownFiles done := by
    intro hop
    funext c
    ext file
    simp [ownFiles, (hop c file).symm]
  cases op with
  | start c file =>
    have hmore : ownFiles (done ++ [.start c file]) = Function.update (ownFiles done) c (insert file (ownFiles done c)) := by
      funext c'
      ext file'
      by_cases hc : c' = c
      · subst hc
        simp [ownFiles, or_comm]
      · simp [ownFiles, hc]
    rw [hmore]
    exact h.start hz (hfile c file rfl) hstep
  | serve c => exact hsame (by simp) ▸ h.serve hstep
  | deliver c success => exact hsame (by simp) ▸ h.deliver hstep
  | keep c seen => exact hsame (by simp) ▸ h.keep hstep
  | enter c => exact hsame (by simp) ▸ h.enter hstep
  | serveRow c => exact hsame (by simp) ▸ h.serveRow hstep
  | transmit c op => exact hsame (by simp) ▸ h.transmit hstep
  | arrive n => exact hsame (by simp) ▸ h.alone (h.server.arrive hstep)
  | metaDataThread => exact hsame (by simp) ▸ h.alone (h.server.metaDataThread hstep)
  | dataThread => exact hsame (by simp) ▸ h.alone (h.server.dataThread hstep)

/-- Every run keeps the invariant. -/
theorem Books.run (hz : z.Writes) {ops : List (SystemOp C)} {s : System C} {events : List Empty}
    (hrun : Runs.execute (systemStep backend sha256 z) System.initial ops = some (s, events)) :
    ∃ history trace, Books sha256 z (begunFiles ops) backend (ownFiles ops) s history trace := by
  have hbegun : ∀ op ∈ ops, ∀ c file, op = .start c file → (c, file) ∈ begunFiles ops := by
    rintro op hop c file rfl
    exact hop
  refine @Runs.execute_steps _ _ _ (systemStep backend sha256 z)
    (fun done s => ∃ history trace, Books sha256 z (begunFiles ops) backend (ownFiles done) s history trace)
    (fun _ op => ∀ c file, op = .start c file → (c, file) ∈ begunFiles ops) ?_ ops [] events _ _ ⟨_, _, Books.initial⟩
    (Runs.along_of_forall hbegun _) hrun
  rintro done s op s' _ ⟨history, trace, h⟩ hfile hstep
  obtain ⟨s'', hnext, heq⟩ := Option.map_eq_some_iff.mp hstep
  obtain ⟨rfl, _⟩ := Prod.mk.inj heq
  exact h.next hz hfile hnext

end RoundTripAux

open RoundTripAux

/-- In every run of any number of clients, whatever the order of the steps and whichever posts fail: when nothing is left to do, every
record that the server has is that of a file that a client saved; and when all the blocks of a file were read, what is written for its
record from the files of the server are the bytes of the file. -/
theorem storedRecords_restore {C : Type} [DecidableEq C] (backend : FileBackend) (sha256 : Bytes → Hash) {z : Zlib} (hz : z.Writes)
    (hinverts : z.Inverts) {ops : List (SystemOp C)} (hcounter : ∀ op ∈ ops, op.CounterFits sha256 z)
    (hsound : BlocksSound sha256 ops) {s : System C} {events : List Empty}
    (hrun : Runs.execute (systemStep backend sha256 z) System.initial ops = some (s, events)) (hdrained : s.Drained)
    {smeta : ServerMetaData} (hsmeta : smeta ∈ s.records) :
    (∃ c file, .start c file ∈ ops ∧ file.Saved ∧ RecordOf sha256 file smeta) ∧
      ∀ c file, .start c file ∈ ops → RecordOf sha256 file smeta → file.ReadWhole → file.BatchesFit →
        ∃ m, smeta.metaData = some m ∧ restoreDataToStream (servedFromFiles backend s.files sha256 z) m.hashDataList
          (calculateMaxNumberOfHashs m.size) = file.source.blocks.flatten := by
  obtain ⟨history, trace, hbooks⟩ := @Books.run C sha256 z backend _ hz _ _ _ hrun
  obtain ⟨history', trace', hsystem⟩ := SharingAux.SystemInv.run hz (Runs.along_of_forall hcounter System.initial) hrun
  have hblocks := hsystem.drained hdrained
  constructor
  · obtain ⟨⟨c, file⟩, hfile, hsaved, hrecord⟩ := hbooks.server.records smeta hsmeta
    exact ⟨c, file, hfile, hsaved, hrecord⟩
  · rintro c file hfile ⟨_, list, m, rfl, hsame, _, hwhole⟩ hread hfits
    have hlist : HashsAre m.hashDataList (file.blockHashs sha256) := hsame.hashs.trans (hwhole hread)
    refine ⟨m, rfl, ?_⟩
    rw [hsame.size]
    refine restores_of_blocks hz hinverts hsound hbooks.server hfile hfits hlist fun g hg => ?_
    exact hblocks _ hsmeta g ⟨m, rfl, hlist.mem.mpr hg⟩

/-- The only block of these runs. -/
theorem begunBlocks_helloSteps : begunBlocks helloSteps ⊆ {str "hello"} := by
  rintro block ⟨⟨c, file⟩, hfile, hblock⟩
  have hstart : (SystemOp.start c file : SystemOp Bool) ∈ helloSteps := hfile
  simp only [helloSteps, List.mem_cons, SystemOp.start.injEq, reduceCtorEq, List.not_mem_nil, or_false, false_or] at hstart
  have hhello : file = helloFile true := by
    rcases hstart with ⟨_, hfile⟩ | ⟨_, hfile⟩ <;> exact hfile
  subst hhello
  exact List.mem_singleton.mp hblock

/-- At the end of the run of two clients with the same file nothing is left to do. -/
theorem helloSteps_drained :
    ∃ s, Runs.execute (systemStep defaultBackend zeroDigest storingZlib) System.initial helloSteps = some (s, []) ∧
      s.records.length = 3 ∧ s.Drained := by
  have hrun : (Runs.execute (systemStep defaultBackend zeroDigest storingZlib) System.initial helloSteps).map
      (fun r => (r.2, r.1.records.length, r.1.metaQueue, r.1.dataQueue, (r.1.clients true).thread, (r.1.clients false).thread,
        buffersToTransmit (r.1.clients true).buffers.database, buffersToTransmit (r.1.clients false).buffers.database)) =
      some ([], 3, [], [], .ret (), .ret (), [], []) := rfl
  obtain ⟨⟨s, events⟩, hexecute, heq⟩ := Option.map_eq_some_iff.mp hrun
  simp only [Prod.mk.injEq] at heq
  obtain ⟨rfl, hrecords, hmeta, hdata, hthread, hthread', hrows, hrows'⟩ := heq
  refine ⟨s, hexecute, hrecords, hmeta, hdata, fun c => ?_⟩
  cases c with
  | true => exact ⟨hthread, hrows⟩
  | false => exact ⟨hthread', hrows'⟩

/-- Each of the three records that are stored in the end is restored as the file. -/
theorem helloSteps_restored : ∃ s, Runs.execute (systemStep defaultBackend zeroDigest storingZlib) System.initial helloSteps =
    some (s, []) ∧ s.records.length = 3 ∧ ∀ smeta ∈ s.records, RecordOf zeroDigest (helloFile true) smeta →
      ∃ m, smeta.metaData = some m ∧ restoreDataToStream (servedFromFiles defaultBackend s.files zeroDigest storingZlib)
        m.hashDataList (calculateMaxNumberOfHashs m.size) = str "hello" := by
  obtain ⟨s, hrun, hrecords, hdrained⟩ := helloSteps_drained
  have hcounter : ∀ op ∈ helloSteps, op.CounterFits zeroDigest storingZlib := by
    intro op hop
    cases op with
    | start c file =>
      simp only [helloSteps, List.mem_cons, SystemOp.start.injEq, reduceCtorEq, List.not_mem_nil, or_false, false_or] at hop
      rcases hop with ⟨_, rfl⟩ | ⟨_, rfl⟩ <;> exact fun _ _ => helloFile_counterFits true
    | _ => trivial
  have hsound : BlocksSound zeroDigest helloSteps := by
    constructor
    · intro a ha b hb _
      rw [begunBlocks_helloSteps ha, begunBlocks_helloSteps hb]
    · intro block hblock
      rw [begunBlocks_helloSteps hblock]
      decide
  have hfits : (helloFile true).BatchesFit := by
    intro i
    refine lt_of_le_of_lt (List.Sublist.length_le (List.Sublist.flatten (?_ : List.Sublist _ (helloFile true).source.blocks)))
      (show (helloFile true).source.blocks.flatten.length < 2 ^ 32 by decide)
    exact (List.take_sublist _ _).trans (List.drop_sublist _ _)
  refine ⟨s, hrun, hrecords, fun smeta hsmeta hrecord => ?_⟩
  exact (storedRecords_restore defaultBackend zeroDigest storingZlib_writes storingZlib_inverts hcounter hsound hrun hdrained hsmeta).2
    true (helloFile true) List.mem_cons_self hrecord ⟨rfl, rfl, fun _ => rfl⟩ hfits

/-- In every run of any number of clients, whatever the order of the steps and whichever posts fail: when nothing is left to do, the
server has the record of every file that a client saved, when the record can be written. -/
theorem savedFiles_recorded {C : Type} [DecidableEq C] (backend : FileBackend) (sha256 : Bytes → Hash) {z : Zlib} (hz : z.Writes)
    {ops : List (SystemOp C)} {s : System C} {events : List Empty}
    (hrun : Runs.execute (systemStep backend sha256 z) System.initial ops = some (s, events)) (hdrained : s.Drained) {c : C}
    {file : FileToSave} (hstart : .start c file ∈ ops) (hsaved : file.Saved) (hwritable : file.Writable) :
    ∃ smeta ∈ s.records, RecordOf sha256 file smeta := by
  obtain ⟨history, trace, hbooks⟩ := @Books.run C sha256 z backend _ hz _ _ _ hrun
  exact hbooks.drained hdrained hstart hsaved hwritable

/-- The file of the first client has its record, although the post of the record failed. -/
theorem helloSteps_recorded : ∃ s, Runs.execute (systemStep defaultBackend zeroDigest storingZlib) System.initial helloSteps =
    some (s, []) ∧ ∃ smeta ∈ s.records, RecordOf zeroDigest (helloFile true) smeta := by
  obtain ⟨s, hrun, _, hdrained⟩ := helloSteps_drained
  exact ⟨s, hrun, savedFiles_recorded defaultBackend zeroDigest storingZlib_writes hrun hdrained (c := true) List.mem_cons_self
    ⟨rfl, rfl⟩ (Option.isSome_iff_ne_none.mp (by decide))⟩

end Sauvegarde
