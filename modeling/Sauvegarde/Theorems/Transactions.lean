import Sauvegarde.Libcdpfgl.Transactions

/-!
# What a stopped client had written

Over every run of the threads of a client between a start and a stop, with any commands failing: they write to one database over one
connection, so that a transaction of one takes in statements of the others.
-/

namespace Sauvegarde

open Transactions (Connection)

namespace TransactionsAux

variable {T Text : Type}

/-- What a call of a thread does. -/
def effectOf (call : T × DatabaseCall Text) : Tables Text → Tables Text := call.2.effect

/-- What holds of the calls that were executed: the first ones are stored; the others, which are pending, are each of another thread,
which has not returned from it. -/
structure Written (tables : Tables Text) (kept pending : List (T × DatabaseCall Text)) (s : Session T Text) : Prop where
  holds : Transactions.Holds effectOf tables kept pending s.connection
  nodup : (pending.map Prod.fst).Nodup
  calling : ∀ call ∈ pending, s.phase call.1 = .executed call.2 .succeeds

theorem written_opened (tables : Tables Text) : Written (T := T) tables [] [] (Session.opened tables) :=
  ⟨.connect tables, List.nodup_nil, fun _ h => absurd h List.not_mem_nil⟩

variable [DecidableEq T] {tables : Tables Text} {kept pending : List (T × DatabaseCall Text)} {s : Session T Text}

/-- A thread that has nothing pending goes elsewhere. -/
theorem Written.calling_update (h : Written tables kept pending s) {t : T} {phase : CallPhase Text}
    (hphase : ∀ call, s.phase t ≠ .executed call .succeeds) :
    ∀ call ∈ pending, call.1 ≠ t ∧ Function.update s.phase t phase call.1 = .executed call.2 .succeeds := by
  intro call hcall
  have hne : call.1 ≠ t := fun heq => hphase call.2 (heq ▸ h.calling call hcall)
  exact ⟨hne, by rw [Function.update_of_ne hne, h.calling call hcall]⟩

/-- A step of a thread. -/
theorem Written.step (h : Written tables kept pending s) {op : SessionOp T Text} {s' : Session T Text}
    {events : List (T × DatabaseCall Text)} (hundo : op.UndoesNothing s) (hstep : sessionStep s op = some (s', events)) :
    ∃ kept' pending', kept ++ pending ++ events = kept' ++ pending' ∧ Written tables kept' pending' s' := by
  cases op with
  | begin t call succeeds =>
    simp only [sessionStep] at hstep
    split at hstep
    · rename_i hidle
      obtain ⟨rfl, rfl⟩ := Prod.mk.inj (Option.some.inj hstep)
      have hcalling := @Written.calling_update _ _ _ _ _ _ _ h t (.begun call) (by simp [hidle])
      exact ⟨kept, pending, List.append_nil _, h.holds.begin succeeds, h.nodup, fun call hcall => (hcalling call hcall).2⟩
    · cases hstep
  | execute t outcome =>
    simp only [sessionStep] at hstep
    split at hstep
    · rename_i call hbegun
      obtain ⟨rfl, rfl⟩ := Prod.mk.inj (Option.some.inj hstep)
      have hcalling := @Written.calling_update _ _ _ _ _ _ _ h t (.executed call outcome) (by simp [hbegun])
      by_cases hsucceeds : outcome = .succeeds
      case neg =>
        refine ⟨kept, pending, by rw [if_neg hsucceeds, List.append_nil], ?_, h.nodup, fun call hcall => (hcalling call hcall).2⟩
        exact h.holds.execute_failed hsucceeds hundo _
      case pos =>
        rw [if_pos hsucceeds]
        subst hsucceeds
        rcases @Transactions.Holds.execute _ _ _ _ _ _ _ h.holds (t, call) with ⟨-, hholds⟩ | ⟨hclosed, hholds⟩
        · -- a transaction is open: the statement is pending, and its thread had nothing pending
          refine ⟨kept, pending ++ [(t, call)], List.append_assoc .., hholds, ?_, fun call' hcall' => ?_⟩
          · rw [List.map_append, List.nodup_append]
            refine ⟨h.nodup, List.nodup_cons.mpr ⟨List.not_mem_nil, List.nodup_nil⟩, fun t' ht' u hu => ?_⟩
            obtain ⟨call', hcall', rfl⟩ := List.mem_map.mp ht'
            rw [List.mem_singleton.mp hu]
            exact (hcalling call' hcall').1
          · rcases List.mem_append.mp hcall' with hcall' | hcall'
            · exact (hcalling call' hcall').2
            · rw [List.mem_singleton.mp hcall']
              exact Function.update_self ..
        · refine ⟨kept ++ [(t, call)], [], ?_, hholds, List.nodup_nil, fun _ hcall => absurd hcall List.not_mem_nil⟩
          rw [h.holds.closed hclosed, List.append_nil, List.append_nil]
    · cases hstep
  | commit t outcome =>
    simp only [sessionStep] at hstep
    split at hstep
    · obtain ⟨rfl, rfl⟩ := Prod.mk.inj (Option.some.inj hstep)
      refine ⟨kept ++ pending, [], rfl, h.holds.commit hundo, List.nodup_nil, fun _ hcall => absurd hcall List.not_mem_nil⟩
    · cases hstep

end TransactionsAux

open TransactionsAux

/-- However the threads of a client interleave the commands of their calls, and whichever fail without undoing an open transaction: the
tables show what the statements do one after the other; and when the client is stopped, those that are lost are the last ones,
each of another thread, in a call that had not returned. -/
theorem stoppedClient_keepsReturned {T Text : Type} [DecidableEq T] {tables : Tables Text} {ops : List (SessionOp T Text)}
    {s : Session T Text} {calls : List (T × DatabaseCall Text)}
    (hundoes : Runs.Along sessionStep (fun s op => op.UndoesNothing s) (Session.opened tables) ops)
    (hrun : Runs.execute sessionStep (Session.opened tables) ops = some (s, calls)) :
    s.connection.seen = calls.foldl (fun tables call => call.2.effect tables) tables ∧
    ∃ kept lost, calls = kept ++ lost ∧ s.stopped = kept.foldl (fun tables call => call.2.effect tables) tables ∧
      (lost.map Prod.fst).Nodup ∧ ∀ call ∈ lost, s.phase call.1 = .executed call.2 .succeeds := by
  have hinv : ∃ kept pending, [] ++ calls = kept ++ pending ∧ Written tables kept pending s := by
    refine @Runs.execute_invariant _ _ _ sessionStep (fun calls s => ∃ kept pending, calls = kept ++ pending ∧ Written tables kept pending s)
      (fun s op => op.UndoesNothing s) ?_ ops [] calls _ s ⟨[], [], rfl, written_opened tables⟩ hundoes hrun
    rintro _ s op s' events ⟨kept, pending, rfl, hwritten⟩ hundo hstep
    exact hwritten.step hundo hstep
  obtain ⟨kept, lost, hcalls, hwritten⟩ := hinv
  rw [List.nil_append] at hcalls
  subst hcalls
  exact ⟨hwritten.holds.seen, kept, lost, rfl, congrArg Connection.seen hwritten.holds.reconnect, hwritten.nodup, hwritten.calling⟩

/-- Two threads: the first begins a transaction, the second is refused its own, both execute their statements, and the second commits
both; the first then saves another row, and does not return. -/
def sharedSession : List (SessionOp Bool Bytes) :=
  [.begin true (.saveBuffer (some "/Meta.json") (some (str "a"))) true, .begin false (.insertTransmited 7) true, .execute false .succeeds,
    .execute true .succeeds, .commit false .succeeds, .commit true .succeeds,
    .begin true (.saveBuffer (some "/Data.json") (some (str "b"))) true, .execute true .succeeds]

/-- The last row is lost when the client is stopped. -/
theorem sharedSession_keepsReturned : ∃ s calls,
    Runs.execute sessionStep (Session.opened ⟨Database.created, FilesTable.created⟩) sharedSession = some (s, calls) ∧
      calls.length = 3 ∧ s.stopped.database.buffers = [⟨1, "/Meta.json", str "a"⟩] ∧
      ∃ kept lost, calls = kept ++ lost ∧
        s.stopped = kept.foldl (fun tables call => call.2.effect tables) ⟨Database.created, FilesTable.created⟩ ∧
        (lost.map Prod.fst).Nodup ∧ ∀ call ∈ lost, s.phase call.1 = .executed call.2 .succeeds := by
  obtain ⟨s, calls, hrun, hlength, hrows⟩ : ∃ s calls,
      Runs.execute sessionStep (Session.opened ⟨Database.created, FilesTable.created⟩) sharedSession = some (s, calls) ∧
        calls.length = 3 ∧ s.stopped.database.buffers = [⟨1, "/Meta.json", str "a"⟩] := ⟨_, _, rfl, rfl, rfl⟩
  have hundoes : ∀ op ∈ sharedSession, ∀ s : Session Bool Bytes, op.UndoesNothing s := by
    intro op hop s
    simp only [sharedSession, List.mem_cons, List.not_mem_nil, or_false] at hop
    rcases hop with rfl | rfl | rfl | rfl | rfl | rfl | rfl | rfl
    all_goals first
      | trivial
      | exact fun _ => rfl
      | exact fun _ => Transactions.Outcome.noConfusion
  exact ⟨s, calls, hrun, hlength, hrows,
    (stoppedClient_keepsReturned (Runs.along_of_always hundoes (Session.opened ⟨Database.created, FilesTable.created⟩)) hrun).2⟩

end Sauvegarde
