import Mathlib.Data.List.Nodup

/-!
# Transactions over one connection

A store that threads reach over one connection. There is one transaction for the whole connection, whoever began it: to begin one while
one is open is refused, what any thread does goes into the one that is open, and who commits commits what all of them did. Without an
open transaction a statement is stored at once. When the connection is lost, or after some errors, what was not committed is undone.
-/

namespace Transactions

/-- What is stored, what statements see, and whether a transaction is open. -/
structure Connection (Store : Type) where
  stored : Store
  seen : Store
  isOpen : Bool
deriving DecidableEq

/-- How a command ends: it is done, it does nothing, or an error makes the store undo the transaction. -/
inductive Outcome where
  | succeeds
  | fails
  | rollsBack
deriving DecidableEq

namespace Connection

variable {Store : Type}

/-- A connection to a store. -/
def connect (store : Store) : Connection Store := ⟨store, store, false⟩

/-- A transaction is begun, when it succeeds; it is refused while one is open. -/
def begin (connection : Connection Store) (succeeds : Bool) : Connection Store :=
  { connection with isOpen := connection.isOpen || succeeds }

/-- What was not committed is undone: the connection is lost and made again, or the store rolls the transaction back. -/
def reconnect (connection : Connection Store) : Connection Store := connect connection.stored

/-- A statement is executed. -/
def execute (connection : Connection Store) (effect : Store → Store) : Outcome → Connection Store
  | .succeeds =>
    if connection.isOpen then { connection with seen := effect connection.seen } else connect (effect connection.seen)
  | .fails => connection
  | .rollsBack => connection.reconnect

/-- The transaction is committed; the command is refused when none is open. -/
def commit (connection : Connection Store) : Outcome → Connection Store
  | .succeeds => if connection.isOpen then connect connection.seen else connection
  | .fails => connection
  | .rollsBack => if connection.isOpen then connection.reconnect else connection

end Connection

section

variable {Store Call : Type} (effect : Call → Store → Store)

/-- What a store becomes by calls, one after the other. -/
def after (store : Store) (calls : List Call) : Store := calls.foldl (fun store call => effect call store) store

/-- What a connection has of the calls that were executed since it was made: the first ones are stored, the others are seen. -/
structure Holds (store : Store) (kept pending : List Call) (connection : Connection Store) : Prop where
  stored : connection.stored = after effect store kept
  seen : connection.seen = after effect store (kept ++ pending)
  closed : connection.isOpen = false → pending = []

variable {effect} {store : Store} {kept pending : List Call} {connection : Connection Store}

theorem after_append (store : Store) (calls more : List Call) :
    after effect store (calls ++ more) = after effect (after effect store calls) more := List.foldl_append

theorem Holds.connect (store : Store) : Holds effect store [] [] (Connection.connect store) := ⟨rfl, rfl, fun _ => rfl⟩

/-- A transaction that is begun changes nothing that was done. -/
theorem Holds.begin (h : Holds effect store kept pending connection) (succeeds : Bool) :
    Holds effect store kept pending (connection.begin succeeds) where
  stored := h.stored
  seen := h.seen
  closed := fun hclosed => h.closed (Bool.or_eq_false_iff.mp hclosed).1

/-- A statement is done after the others: it is stored when no transaction is open. -/
theorem Holds.execute (h : Holds effect store kept pending connection) (call : Call) :
    (connection.isOpen = true ∧ Holds effect store kept (pending ++ [call]) (connection.execute (effect call) .succeeds)) ∨
      (connection.isOpen = false ∧ Holds effect store (kept ++ [call]) [] (connection.execute (effect call) .succeeds)) := by
  have hnext : effect call connection.seen = after effect store (kept ++ pending ++ [call]) := by
    rw [h.seen, after_append store (kept ++ pending)]
    rfl
  cases hopen : connection.isOpen with
  | true =>
    refine .inl ⟨rfl, ?_⟩
    rw [Connection.execute, if_pos hopen]
    exact ⟨h.stored, by rw [← List.append_assoc]; exact hnext, fun hclosed => absurd (hopen.symm.trans hclosed) Bool.noConfusion⟩
  | false =>
    refine .inr ⟨rfl, ?_⟩
    rw [h.closed hopen, List.append_nil] at hnext
    rw [Connection.execute, if_neg (by rw [hopen]; exact Bool.false_ne_true), hnext]
    exact ⟨rfl, by rw [List.append_nil]; rfl, fun _ => rfl⟩

/-- What is there when the transaction is undone is what was stored. -/
theorem Holds.reconnect (h : Holds effect store kept pending connection) :
    connection.reconnect = Connection.connect (after effect store kept) := by
  rw [Connection.reconnect, h.stored]

/-- A statement that fails does nothing, whether the store undoes a transaction or not, when none is open. -/
theorem Holds.execute_failed (h : Holds effect store kept pending connection) {outcome : Outcome} (hfails : outcome ≠ .succeeds)
    (hopen : connection.isOpen = true → outcome ≠ .rollsBack) (f : Store → Store) :
    Holds effect store kept pending (connection.execute f outcome) := by
  cases outcome with
  | succeeds => exact absurd rfl hfails
  | fails => exact h
  | rollsBack =>
    have hclosed : connection.isOpen = false := by simpa using fun htrue => hopen htrue rfl
    rw [Connection.execute, h.reconnect, h.closed hclosed]
    exact ⟨rfl, by rw [List.append_nil]; rfl, fun _ => rfl⟩

/-- A commit that succeeds while a transaction is open stores everything that was done, by whoever; when none is open everything is
stored already. -/
theorem Holds.commit (h : Holds effect store kept pending connection) {outcome : Outcome}
    (hsucceeds : connection.isOpen = true → outcome = .succeeds) :
    Holds effect store (kept ++ pending) [] (connection.commit outcome) := by
  cases hopen : connection.isOpen with
  | true =>
    rw [hsucceeds hopen, Connection.commit, if_pos hopen, h.seen]
    exact ⟨rfl, by rw [List.append_nil]; rfl, fun _ => rfl⟩
  | false =>
    have hrefused : connection.commit outcome = connection := by cases outcome <;> simp [Connection.commit, hopen]
    rw [hrefused, h.closed hopen, List.append_nil]
    exact ⟨h.stored, by rw [List.append_nil, h.seen, h.closed hopen, List.append_nil], fun _ => rfl⟩

end

end Transactions
