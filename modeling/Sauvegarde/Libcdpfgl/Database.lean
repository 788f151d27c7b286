import Mathlib.Data.List.Basic

/-!
# Requests kept for later

The tables `buffers` and `transmited` of the client's database, and the statements of database.c that touch them. The thread
that saves files adds rows; the thread that reconnects selects the rows that were not transmitted, posts one after the other,
records the ones that were accepted and deletes them at the end. Each statement is atomic; the program may stop between any two.
The text of a request is of any type.
-/

namespace Sauvegarde

variable {Text : Type}

/-- A row of the table `buffers`. -/
structure BufferRow (Text : Type) where
  bufferId : Nat
  url : String
  data : Text
deriving DecidableEq

/-- The two tables, and the greatest `buffer_id` that was ever given: `AUTOINCREMENT` keeps it in a table of its own. -/
structure Database (Text : Type) where
  buffers : List (BufferRow Text)
  transmited : List Nat
  sequence : Nat
deriving DecidableEq

/-- The tables as `verify_if_tables_exists` creates them. -/
def Database.created : Database Text := ⟨[], [], 0⟩

/-- `db_save_buffer`: the row that is inserted, none without a url or a text. -/
def newBufferRow (database : Database Text) (url : Option String) (buffer : Option Text) : Option (BufferRow Text) :=
  url.bind fun url => buffer.map fun buffer => ⟨database.sequence + 1, url, buffer⟩

/-- `db_save_buffer`. -/
def dbSaveBuffer (database : Database Text) (url : Option String) (buffer : Option Text) : Database Text :=
  match newBufferRow database url buffer with
  | none => database
  | some row => { database with buffers := database.buffers ++ [row], sequence := row.bufferId }

/-- `SELECT transmited.buffer_id FROM transmited INNER JOIN buffers`: the rows that were transmitted and not deleted. -/
def transmitedBuffers (database : Database Text) : List Nat :=
  database.transmited.filter fun id => database.buffers.any fun row => row.bufferId = id

/-- `SELECT * FROM buffers WHERE buffers.buffer_id NOT IN (...)`: the rows that were not transmitted. -/
def buffersToTransmit (database : Database Text) : List (BufferRow Text) :=
  database.buffers.filter fun row => row.bufferId ∉ transmitedBuffers database

/-- `db_is_there_buffers_to_transmit`. -/
def dbIsThereBuffersToTransmit (database : Database Text) : Bool := 0 < (buffersToTransmit database).length

/-- The statement of `transmit_callback`: the id is recorded, unless it is already. -/
def insertTransmited (database : Database Text) (id : Nat) : Database Text :=
  if id ∈ database.transmited then database else { database with transmited := database.transmited ++ [id] }

/-- The statement of `delete_transmited_callback`. -/
def deleteBuffer (database : Database Text) (id : Nat) : Database Text :=
  { database with buffers := database.buffers.filter fun row => row.bufferId ≠ id }

/-! ## The thread that reconnects -/

/-- Where `db_transmit_buffers` is: not called, at the next row of its query, after a post that succeeded and before the
recording of its row, or at the next row of the query of `delete_transmited_buffers`. -/
inductive Transmission (Text : Type) where
  | idle
  | sending (rows : List (BufferRow Text))
  | posted (row : BufferRow Text) (rows : List (BufferRow Text))
  | deleting (ids : List Nat)
deriving DecidableEq

/-- The database and the thread over it. -/
structure Buffers (Text : Type) where
  database : Database Text
  transmission : Transmission Text
deriving DecidableEq

/-- One step. A row that is saved while the query of `db_transmit_buffers` runs may be seen by it, at its end, or not. -/
inductive BufferOp (Text : Type) where
  | save (url : Option String) (buffer : Option Text) (seen : Bool)
  | select
  | post (success : Bool)
  | record
  | selectTransmited
  | delete
  | finish
  | stop
deriving DecidableEq

/-- What happens to a row. -/
inductive BufferEvent (Text : Type) where
  | saved (row : BufferRow Text)
  | posted (row : BufferRow Text) (success : Bool)
  | recorded (id : Nat)
deriving DecidableEq

/-- The query that runs sees a row at its end. -/
def Transmission.append (transmission : Transmission Text) (row : BufferRow Text) : Transmission Text :=
  match transmission with
  | .sending rows => .sending (rows ++ [row])
  | .posted current rows => .posted current (rows ++ [row])
  | other => other

/-- A step of one of the two threads, or a stop of the program; none when the thread is not there. -/
def bufferStep (s : Buffers Text) : BufferOp Text → Option (Buffers Text × List (BufferEvent Text))
  | .save url buffer seen =>
    match newBufferRow s.database url buffer with
    | none => some (s, [])
    | some row =>
      some (⟨dbSaveBuffer s.database url buffer, if seen then s.transmission.append row else s.transmission⟩, [.saved row])
  | .select =>
    match s.transmission with
    | .idle => some (⟨s.database, .sending (buffersToTransmit s.database)⟩, [])
    | _ => none
  | .post success =>
    match s.transmission with
    | .sending (row :: rows) =>
      some (⟨s.database, if success then .posted row rows else .sending rows⟩, [.posted row success])
    | _ => none
  | .record =>
    match s.transmission with
    | .posted row rows => some (⟨insertTransmited s.database row.bufferId, .sending rows⟩, [.recorded row.bufferId])
    | _ => none
  | .selectTransmited =>
    match s.transmission with
    | .sending [] => some (⟨s.database, .deleting (transmitedBuffers s.database)⟩, [])
    | _ => none
  | .delete =>
    match s.transmission with
    | .deleting (id :: ids) => some (⟨deleteBuffer s.database id, .deleting ids⟩, [])
    | _ => none
  | .finish =>
    match s.transmission with
    | .deleting [] => some (⟨s.database, .idle⟩, [])
    | _ => none
  | .stop => some (⟨s.database, .idle⟩, [])

/-! ## What the statements do -/

/-- A row that was not recorded is selected, by both queries. -/
theorem mem_buffersToTransmit {database : Database Text} {row : BufferRow Text} (hrow : row ∈ database.buffers)
    (hid : row.bufferId ∉ database.transmited) :
    row ∈ buffersToTransmit database ∧ dbIsThereBuffersToTransmit database = true := by
  have hmem : row ∈ buffersToTransmit database := by
    simp only [buffersToTransmit, List.mem_filter, decide_eq_true_eq]
    exact ⟨hrow, fun h => hid (List.mem_filter.mp h).1⟩
  refine ⟨hmem, ?_⟩
  rw [dbIsThereBuffersToTransmit, decide_eq_true_eq]
  exact List.length_pos_of_mem hmem

/-- A row that is selected was not recorded. -/
theorem not_mem_transmited {database : Database Text} {row : BufferRow Text} (h : row ∈ buffersToTransmit database) :
    row ∈ database.buffers ∧ row.bufferId ∉ database.transmited := by
  simp only [buffersToTransmit, List.mem_filter, decide_eq_true_eq] at h
  refine ⟨h.1, fun hid => h.2 (List.mem_filter.mpr ⟨hid, ?_⟩)⟩
  rw [List.any_eq_true]
  exact ⟨row, h.1, by simp⟩

/-- The recorded ids after one more is recorded. -/
@[simp] theorem mem_insertTransmited {database : Database Text} {id i : Nat} :
    i ∈ (insertTransmited database id).transmited ↔ i ∈ database.transmited ∨ i = id := by
  unfold insertTransmited
  split
  · rename_i h
    refine ⟨Or.inl, ?_⟩
    rintro (hi | rfl)
    · exact hi
    · exact h
  · simp

@[simp] theorem buffers_insertTransmited (database : Database Text) (id : Nat) :
    (insertTransmited database id).buffers = database.buffers := by
  unfold insertTransmited
  split <;> rfl

@[simp] theorem sequence_insertTransmited (database : Database Text) (id : Nat) :
    (insertTransmited database id).sequence = database.sequence := by
  unfold insertTransmited
  split <;> rfl

end Sauvegarde
