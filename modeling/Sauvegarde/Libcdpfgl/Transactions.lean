import Sauvegarde.Lib.Runs
import Sauvegarde.Lib.Transactions
import Sauvegarde.Libcdpfgl.Database
import Sauvegarde.Libcdpfgl.FilesTable

/-!
# Transactions on the client's database

The functions of database.c that write begin a transaction, execute one statement and commit, whatever comes of each of the three: an
error is only printed. The threads of the client use one connection, so their transactions are one, and a command of a thread may come
between any two of another one.
-/

namespace Sauvegarde

open Transactions (Connection Outcome)

variable {T Text : Type}

/-- The tables of the client's database. -/
structure Tables (Text : Type) where
  database : Database Text
  files : FilesTable
deriving DecidableEq

/-- A call of a function that writes, with what it writes: `db_save_meta_data`, `db_save_buffer`, and what `transmit_callback` and
`delete_transmited_callback` do. -/
inductive DatabaseCall (Text : Type) where
  | saveMetaData (metaData : MetaData) (onlyMeta : Bool) (cacheTime : UInt64)
  | saveBuffer (url : Option String) (buffer : Option Text)
  | insertTransmited (bufferId : Nat)
  | deleteBuffer (bufferId : Nat)

/-- The statement of a call. -/
def DatabaseCall.effect : DatabaseCall Text → Tables Text → Tables Text
  | .saveMetaData metaData onlyMeta cacheTime, tables =>
    { tables with files := tables.files.dbSaveMetaData metaData onlyMeta cacheTime }
  | .saveBuffer url buffer, tables => { tables with database := dbSaveBuffer tables.database url buffer }
  | .insertTransmited bufferId, tables => { tables with database := Sauvegarde.insertTransmited tables.database bufferId }
  | .deleteBuffer bufferId, tables => { tables with database := Sauvegarde.deleteBuffer tables.database bufferId }

/-- `sql_begin`. -/
def sqlBegin (connection : Connection (Tables Text)) (succeeds : Bool) : Connection (Tables Text) := connection.begin succeeds

/-- `sql_commit`. -/
def sqlCommit (connection : Connection (Tables Text)) (outcome : Outcome) : Connection (Tables Text) := connection.commit outcome

/-- Where a thread is: in no call, after `sql_begin`, or after the statement, with its outcome. -/
inductive CallPhase (Text : Type) where
  | idle
  | begun (call : DatabaseCall Text)
  | executed (call : DatabaseCall Text) (outcome : Outcome)

/-- The client from its start to its stop: its connection, and its threads. -/
structure Session (T Text : Type) where
  connection : Connection (Tables Text)
  phase : T → CallPhase Text

/-- The client is started, and opens its database. -/
def Session.opened (tables : Tables Text) : Session T Text := ⟨Connection.connect tables, fun _ => .idle⟩

/-- What is in the database when the client is stopped now, and started again. -/
def Session.stopped (s : Session T Text) : Tables Text := s.connection.reconnect.seen

/-- A step of a thread, with its outcome: a function is called and begins a transaction, executes its statement, or commits and returns. -/
inductive SessionOp (T Text : Type) where
  | begin (t : T) (call : DatabaseCall Text) (succeeds : Bool)
  | execute (t : T) (outcome : Outcome)
  | commit (t : T) (outcome : Outcome)

variable [DecidableEq T]

/-- A step; none when the thread is not there. It leaves the call whose statement was executed. -/
def sessionStep (s : Session T Text) : SessionOp T Text → Option (Session T Text × List (T × DatabaseCall Text))
  | .begin t call succeeds =>
    match s.phase t with
    | .idle => some (⟨sqlBegin s.connection succeeds, Function.update s.phase t (.begun call)⟩, [])
    | _ => none
  | .execute t outcome =>
    match s.phase t with
    | .begun call =>
      some (⟨s.connection.execute call.effect outcome, Function.update s.phase t (.executed call outcome)⟩,
        if outcome = .succeeds then [(t, call)] else [])
    | _ => none
  | .commit t outcome =>
    match s.phase t with
    | .executed _ _ => some (⟨sqlCommit s.connection outcome, Function.update s.phase t .idle⟩, [])
    | _ => none

/-- While a transaction is open no `COMMIT` fails, and no statement fails with an error that undoes the transaction. -/
def SessionOp.UndoesNothing (s : Session T Text) : SessionOp T Text → Prop
  | .begin _ _ _ => True
  | .execute _ outcome => s.connection.isOpen = true → outcome ≠ .rollsBack
  | .commit _ outcome => s.connection.isOpen = true → outcome = .succeeds

end Sauvegarde
