import Sauvegarde.Client.Save
import Sauvegarde.Server.Post

/-!
# What the requests of a client account for

The requests of a thread that saves files, read as the server reads them: the records they bring, and the blocks they carry. From
what happened so far follows which blocks are accounted for: a block was accepted or kept for later, or the server has it already.
-/

namespace Sauvegarde

/-- An operation of a client and what came of it. -/
abbrev ClientEvent := Prog.Event ClientOp ClientRes

/-- The request an operation sends or keeps for later. -/
def ClientOp.request : ClientOp → Option (String × Json)
  | .postUrl url readbuffer _ => readbuffer.map fun body => (url, body)
  | .dbSaveBuffer url buffer _ => buffer.map fun body => (url, body)
  | _ => none

/-- The blocks that the thread has in memory during an operation. -/
def ClientOp.held : ClientOp → List HashData
  | .postUrl _ _ held => held
  | .dbSaveBuffer _ _ held => held
  | _ => []

/-- The hashs of the blocks of a list. -/
def heldHashs (list : List HashData) : Set Hash := {h | ∃ hd ∈ list, hd.hash = some h.bytes ∧ hd.data ≠ none}

/-- The hashs of the blocks that an operation carries: those of its request, and those that are held. -/
def ClientOp.carried (op : ClientOp) : Set Hash :=
  {h | (∃ url body, op.request = some (url, body) ∧ h ∈ blocksOf url body) ∨ h ∈ heldHashs op.held}

/-- The records that an operation sends or keeps for later. -/
def ClientOp.records (op : ClientOp) : Set ServerMetaData :=
  {smeta | ∃ url body, op.request = some (url, body) ∧ smeta ∈ recordsOf url body}

/-- The hashs of the records of an operation. -/
def ClientOp.recordHashs (op : ClientOp) : Set Hash := {h | ∃ smeta ∈ op.records, h ∈ smeta.hashs}

/-- The answer of the server to a post. -/
def answerOf : (op : ClientOp) → ClientRes op → Option Json
  | .postUrl _ _ _, answer => answer
  | _, _ => none

/-- The request of an event was accepted by the server, or stored with `db_save_buffer`. -/
def acceptedOrKept : ClientEvent → Prop
  | ⟨.postUrl _ _ _, answer⟩ => ∃ text, answer = some text
  | ⟨.dbSaveBuffer _ _ _, _⟩ => True
  | _ => False

/-- The server was asked for a hash, and its answer does not list it. -/
def NotNeeded (url : String) (body answer : Json) (h : Hash) : Prop :=
  (∃ hd ∈ askedHashs url body, hd.hash = some h.bytes) ∧ ¬ ∃ hd ∈ listedHashs answer, hd.hash = some h.bytes

/-- The blocks that an event accounts for: not needed, accepted, or stored with `db_save_buffer`. -/
def accountedBy (e : ClientEvent) : Set Hash :=
  {h | ∃ url body, e.op.request = some (url, body) ∧
    ((acceptedOrKept e ∧ h ∈ blocksOf url body) ∨ ∃ answer, answerOf e.op e.res = some answer ∧ NotNeeded url body answer h)}

/-- The blocks that are accounted for. -/
def accounted (history : List ClientEvent) : Set Hash := {h | ∃ e ∈ history, h ∈ accountedBy e}

/-- The hashs of the records that were sent or kept for later. -/
def recorded (history : List ClientEvent) : Set Hash := {h | ∃ e ∈ history, h ∈ e.op.recordHashs}

/-- A record with these hashs, in this order, was accepted by the server or stored with `db_save_buffer`. -/
def RecordSaved (history : List ClientEvent) (hs : List Hash) : Prop :=
  ∃ e ∈ history, acceptedOrKept e ∧
    ∃ smeta ∈ e.op.records, ∃ metaData, smeta.metaData = some metaData ∧ HashsAre metaData.hashDataList hs

/-! ## The rules of the operations -/

section

variable (backend : Option FileBackend)

/-- The answers that an operation may get: a post that has a body fails, or gets the answer of the server, whatever files the
server has. -/
def AnswerOk : (op : ClientOp) → ClientRes op → Prop
  | .postUrl url readbuffer _, answer => ∀ text, answer = some text →
      ∃ body, readbuffer = some body ∧ ∃ files, (processReceivedData backend files url body).answer = some text
  | _, _ => True

/-- What has to hold when an operation is called: every hash of a record that was sent, or that this operation sends, is
accounted for or carried by the operation. -/
structure Allowed (cachedWhen : List ClientEvent → Prop) (history : List ClientEvent) (op : ClientOp) : Prop where
  noCrash : op ≠ .crash
  carried : ∀ h, h ∈ recorded history ∨ h ∈ op.recordHashs → h ∈ accounted history ∨ h ∈ op.carried
  asked : ∀ url body, op.request = some (url, body) → AllHashed (askedHashs url body)
  cached : ∀ metaData onlyMeta, op = .dbSaveMetaData metaData onlyMeta → cachedWhen history

/-- The rules of the operations. -/
def savingRules (cachedWhen : List ClientEvent → Prop) : Prog.Rules ClientOp ClientRes (List ClientEvent) :=
  Prog.historyRules (AnswerOk backend) (Allowed cachedWhen)

@[simp] theorem next_savingRules (cachedWhen : List ClientEvent → Prop) (history : List ClientEvent) (op : ClientOp)
    (answer : ClientRes op) : (savingRules backend cachedWhen).next history op answer = history ++ [⟨op, answer⟩] := rfl

end

/-! ## More happens -/

/-- What was accounted for stays so. -/
theorem accounted_append (history new : List ClientEvent) :
    accounted (history ++ new) = accounted history ∪ accounted new := by
  ext h
  simp only [accounted, List.mem_append, Set.mem_ofPred_eq, Set.mem_union, or_and_right, exists_or]

theorem recorded_append (history new : List ClientEvent) :
    recorded (history ++ new) = recorded history ∪ recorded new := by
  ext h
  simp only [recorded, List.mem_append, Set.mem_ofPred_eq, Set.mem_union, or_and_right, exists_or]

theorem recordSaved_append (history new : List ClientEvent) (hs : List Hash) :
    RecordSaved (history ++ new) hs ↔ RecordSaved history hs ∨ RecordSaved new hs := by
  simp only [RecordSaved, List.mem_append, or_and_right, exists_or]

@[simp] theorem mem_accounted_singleton (e : ClientEvent) (h : Hash) : h ∈ accounted [e] ↔ h ∈ accountedBy e := by
  simp [accounted]

@[simp] theorem mem_recorded_singleton (e : ClientEvent) (h : Hash) : h ∈ recorded [e] ↔ h ∈ e.op.recordHashs := by
  simp [recorded]

/-! ## The blocks of a list -/

theorem not_mem_heldHashs_nil (h : Hash) : h ∉ heldHashs [] := by
  rintro ⟨hd, hhd, _⟩
  exact absurd hhd List.not_mem_nil

theorem mem_heldHashs_append {list list' : List HashData} {h : Hash} :
    h ∈ heldHashs (list ++ list') ↔ h ∈ heldHashs list ∨ h ∈ heldHashs list' := by
  simp only [heldHashs, List.mem_append, Set.mem_ofPred_eq, or_and_right, exists_or]

theorem mem_heldHashs_cons {hd : HashData} {list : List HashData} {h : Hash} :
    h ∈ heldHashs (hd :: list) ↔ h ∈ heldHashs [hd] ∨ h ∈ heldHashs list :=
  @mem_heldHashs_append [hd] list h

/-- The blocks of a part of a list are blocks of the list. -/
theorem heldHashs_subset {list list' : List HashData} (hsub : ∀ hd ∈ list, hd ∈ list') :
    ∀ h ∈ heldHashs list, h ∈ heldHashs list' := by
  rintro h ⟨hd, hhd, hhash⟩
  exact ⟨hd, hsub hd hhd, hhash⟩

end Sauvegarde
