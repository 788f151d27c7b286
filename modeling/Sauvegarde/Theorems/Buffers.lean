import Sauvegarde.Lib.Runs
import Sauvegarde.Libcdpfgl.Database

/-!
# No buffered request is lost or replayed

Over every run of the steps on the tables `buffers` and `transmited`: rows that are saved, posts with any outcome, recordings,
deletions and stops of the program in between.
-/

namespace Sauvegarde

variable {Text : Type}

namespace BuffersAux

/-- Rows that are still to be posted: saved, in the order of their ids, none of them recorded. -/
structure Pending (trace : List (BufferEvent Text)) (transmited : List Nat) (rows : List (BufferRow Text)) : Prop where
  sorted : rows.Pairwise fun row row' => row.bufferId < row'.bufferId
  saved : ∀ row ∈ rows, .saved row ∈ trace
  unrecorded : ∀ row ∈ rows, row.bufferId ∉ transmited

/-- What holds of where the transmission is. -/
def PhaseOk (trace : List (BufferEvent Text)) (transmited : List Nat) : Transmission Text → Prop
  | .idle => True
  | .sending rows => Pending trace transmited rows
  | .posted row rows => Pending trace transmited (row :: rows) ∧ BufferEvent.posted row true ∈ trace
  | .deleting ids => ∀ id ∈ ids, id ∈ transmited

/-- The invariant that ties the two tables to what happened so far. -/
structure Kept (trace : List (BufferEvent Text)) (s : Buffers Text) : Prop where
  sorted : s.database.buffers.Pairwise fun row row' => row.bufferId < row'.bufferId
  given : ∀ row, .saved row ∈ trace → row.bufferId ≤ s.database.sequence
  unique : ∀ row row', .saved row ∈ trace → .saved row' ∈ trace → row.bufferId = row'.bufferId → row = row'
  buffered : ∀ row ∈ s.database.buffers, .saved row ∈ trace
  present : ∀ row, .saved row ∈ trace → row ∈ s.database.buffers ∨ row.bufferId ∈ s.database.transmited
  accepted : ∀ id ∈ s.database.transmited, ∃ row : BufferRow Text, row.bufferId = id ∧ .saved row ∈ trace ∧
    .posted row true ∈ trace
  recorded : ∀ id, .recorded id ∈ trace → id ∈ s.database.transmited
  phase : PhaseOk trace s.database.transmited s.transmission
  once : trace.Pairwise fun e e' => ∀ (row : BufferRow Text) success, e = .recorded row.bufferId →
    e' ≠ .posted row success

/-- More events leave what is pending as it is. -/
theorem Pending.more {trace : List (BufferEvent Text)} {transmited : List Nat} {rows : List (BufferRow Text)}
    (h : Pending trace transmited rows) (events : List (BufferEvent Text)) : Pending (trace ++ events) transmited rows :=
  ⟨h.sorted, fun row hrow => List.mem_append_left _ (h.saved row hrow), h.unrecorded⟩

/-- More events leave the transmission as it is. -/
theorem PhaseOk.more {trace : List (BufferEvent Text)} {transmited : List Nat} {transmission : Transmission Text}
    (h : PhaseOk trace transmited transmission) (events : List (BufferEvent Text)) :
    PhaseOk (trace ++ events) transmited transmission := by
  cases transmission with
  | idle => trivial
  | sending rows => exact Pending.more h events
  | posted row rows => exact ⟨Pending.more h.1 events, List.mem_append_left _ h.2⟩
  | deleting ids => exact h

/-- Without events the invariant is about the state alone, and a new place of the transmission has to be in order. -/
theorem Kept.move {trace : List (BufferEvent Text)} {s : Buffers Text} (h : Kept trace s)
    {transmission : Transmission Text} (hphase : PhaseOk trace s.database.transmited transmission) :
    Kept trace ⟨s.database, transmission⟩ := { h with phase := hphase }

/-- A row that was recorded stays one that was accepted. -/
theorem Kept.accepted_more {trace : List (BufferEvent Text)} {s : Buffers Text} (h : Kept trace s)
    (events : List (BufferEvent Text)) {id : Nat} (hid : id ∈ s.database.transmited) :
    ∃ row : BufferRow Text, row.bufferId = id ∧ .saved row ∈ trace ++ events ∧ .posted row true ∈ trace ++ events := by
  obtain ⟨row, hrow, hsaved, hposted⟩ := h.accepted id hid
  exact ⟨row, hrow, List.mem_append_left _ hsaved, List.mem_append_left _ hposted⟩

/-- An event that posts no recorded row goes behind the others. -/
theorem once_append {trace : List (BufferEvent Text)} {event : BufferEvent Text}
    (h : trace.Pairwise fun e e' => ∀ (row : BufferRow Text) success, e = .recorded row.bufferId →
      e' ≠ .posted row success)
    (hevent : ∀ (row : BufferRow Text) success, .recorded row.bufferId ∈ trace → event ≠ .posted row success) :
    (trace ++ [event]).Pairwise fun e e' => ∀ (row : BufferRow Text) success, e = .recorded row.bufferId →
      e' ≠ .posted row success := by
  refine List.pairwise_append.mpr ⟨h, List.pairwise_singleton _ _, fun e he e' he' row success heq => ?_⟩
  rw [List.mem_singleton.mp he']
  exact hevent row success (heq ▸ he)

/-- The id after the greatest that was given was not recorded, and is not the id of a row. -/
theorem Kept.fresh {trace : List (BufferEvent Text)} {s : Buffers Text} (h : Kept trace s) :
    s.database.sequence + 1 ∉ s.database.transmited := by
  intro hid
  obtain ⟨row, hrow, hsaved, _⟩ := h.accepted _ hid
  have := h.given row hsaved
  omega

/-- A row that is saved goes behind the rows that are pending. -/
theorem Pending.append {trace : List (BufferEvent Text)} {s : Buffers Text} (h : Kept trace s)
    {rows : List (BufferRow Text)} (hrows : Pending trace s.database.transmited rows) {row : BufferRow Text}
    (hrow : row.bufferId = s.database.sequence + 1) : Pending (trace ++ [.saved row]) s.database.transmited (rows ++ [row]) where
  sorted := by
    refine List.pairwise_append.mpr ⟨hrows.sorted, List.pairwise_singleton _ _, fun r hr r' hr' => ?_⟩
    have := h.given r (hrows.saved r hr)
    rw [List.mem_singleton.mp hr']
    omega
  saved := fun r hr => by
    rcases List.mem_append.mp hr with hr | hr
    · exact List.mem_append_left _ (hrows.saved r hr)
    · rw [List.mem_singleton.mp hr]
      exact List.mem_append_right _ List.mem_cons_self
  unrecorded := fun r hr => by
    rcases List.mem_append.mp hr with hr | hr
    · exact hrows.unrecorded r hr
    · rw [List.mem_singleton.mp hr, hrow]
      exact h.fresh

/-- The query that runs sees the row. -/
theorem Kept.phase_append {trace : List (BufferEvent Text)} {s : Buffers Text} (h : Kept trace s) {row : BufferRow Text}
    (hrow : row.bufferId = s.database.sequence + 1) :
    PhaseOk (trace ++ [.saved row]) s.database.transmited (s.transmission.append row) := by
  have hphase := h.phase
  cases htrans : s.transmission with
  | idle => trivial
  | sending rows =>
    rw [htrans] at hphase
    exact Pending.append h hphase hrow
  | posted current rows =>
    rw [htrans] at hphase
    exact ⟨Pending.append h hphase.1 hrow, List.mem_append_left _ hphase.2⟩
  | deleting ids =>
    rw [htrans] at hphase
    exact hphase

/-- A row that is saved, seen by the query that runs or not. -/
theorem Kept.save {trace : List (BufferEvent Text)} {s : Buffers Text} (h : Kept trace s) {row : BufferRow Text}
    (hrow : row.bufferId = s.database.sequence + 1) (seen : Bool) :
    Kept (trace ++ [.saved row])
      ⟨{ s.database with buffers := s.database.buffers ++ [row], sequence := row.bufferId },
        if seen then s.transmission.append row else s.transmission⟩ := by
  have hsaved : ∀ r, BufferEvent.saved r ∈ trace ++ [.saved row] → .saved r ∈ trace ∨ r = row := by
    intro r hr
    rcases List.mem_append.mp hr with hr | hr
    · exact Or.inl hr
    · exact Or.inr (BufferEvent.saved.inj (List.mem_singleton.mp hr))
  constructor
  case sorted =>
    refine List.pairwise_append.mpr ⟨h.sorted, List.pairwise_singleton _ _, fun r hr r' hr' => ?_⟩
    have := h.given r (h.buffered r hr)
    rw [List.mem_singleton.mp hr']
    omega
  case given =>
    intro r hr
    rcases hsaved r hr with hr | rfl
    · have := h.given r hr
      simp only
      omega
    · exact Nat.le_refl _
  case unique =>
    intro r r' hr hr' heq
    rcases hsaved r hr with hold | rfl <;> rcases hsaved r' hr' with hold' | rfl
    · exact h.unique r r' hold hold' heq
    · have := h.given r hold
      omega
    · have := h.given r' hold'
      omega
    · rfl
  case buffered =>
    intro r hr
    rcases List.mem_append.mp hr with hr | hr
    · exact List.mem_append_left _ (h.buffered r hr)
    · rw [List.mem_singleton.mp hr]
      exact List.mem_append_right _ List.mem_cons_self
  case present =>
    intro r hr
    rcases hsaved r hr with hr | rfl
    · exact (h.present r hr).imp_left fun hmem => List.mem_append_left _ hmem
    · exact Or.inl (List.mem_append_right _ List.mem_cons_self)
  case accepted => exact fun id hid => h.accepted_more _ hid
  case recorded =>
    intro id hid
    refine h.recorded id ((List.mem_append.mp hid).resolve_right fun hlast => ?_)
    exact absurd (List.mem_singleton.mp hlast) (by simp)
  case phase =>
    cases seen with
    | false => exact PhaseOk.more h.phase _
    | true => exact h.phase_append hrow
  case once => exact once_append h.once fun _ _ _ => by simp

/-- The rows that are selected are pending. -/
theorem Kept.pending {trace : List (BufferEvent Text)} {s : Buffers Text} (h : Kept trace s) :
    Pending trace s.database.transmited (buffersToTransmit s.database) where
  sorted := h.sorted.filter _
  saved := fun row hrow => h.buffered row (not_mem_transmited hrow).1
  unrecorded := fun _ hrow => (not_mem_transmited hrow).2

/-- A row that is pending is posted, with any outcome. -/
theorem Kept.post {trace : List (BufferEvent Text)} {database : Database Text} {row : BufferRow Text}
    {rows : List (BufferRow Text)} (h : Kept trace ⟨database, .sending (row :: rows)⟩) (success : Bool) :
    Kept (trace ++ [.posted row success])
      ⟨database, if success then .posted row rows else .sending rows⟩ where
  sorted := h.sorted
  given := fun r hr => h.given r (by simpa using hr)
  unique := fun r r' hr hr' => h.unique r r' (by simpa using hr) (by simpa using hr')
  buffered := fun r hr => List.mem_append_left _ (h.buffered r hr)
  present := fun r hr => h.present r (by simpa using hr)
  accepted := fun id hid => h.accepted_more _ hid
  recorded := fun id hid => h.recorded id (by simpa using hid)
  phase := by
    have hpending : Pending trace database.transmited (row :: rows) := h.phase
    cases success with
    | false =>
      exact Pending.more ⟨(List.pairwise_cons.mp hpending.sorted).2, fun r hr => hpending.saved r (List.mem_cons_of_mem _ hr),
        fun r hr => hpending.unrecorded r (List.mem_cons_of_mem _ hr)⟩ _
    | true => exact ⟨hpending.more _, List.mem_append_right _ List.mem_cons_self⟩
  once := once_append h.once fun r success' hr heq => by
    have hpending : Pending trace database.transmited (row :: rows) := h.phase
    have hsame : r = row := (BufferEvent.posted.inj heq).1.symm
    exact hpending.unrecorded row List.mem_cons_self (h.recorded _ (hsame ▸ hr))

/-- The row whose post succeeded is recorded. -/
theorem Kept.record {trace : List (BufferEvent Text)} {database : Database Text} {row : BufferRow Text}
    {rows : List (BufferRow Text)} (h : Kept trace ⟨database, .posted row rows⟩) :
    Kept (trace ++ [.recorded row.bufferId]) ⟨insertTransmited database row.bufferId, .sending rows⟩ := by
  obtain ⟨hpending, hposted⟩ : Pending trace database.transmited (row :: rows) ∧ BufferEvent.posted row true ∈ trace :=
    h.phase
  obtain ⟨hfirst, hsorted⟩ := List.pairwise_cons.mp hpending.sorted
  constructor
  case sorted => simpa using h.sorted
  case given =>
    intro r hr
    rw [sequence_insertTransmited]
    exact h.given r (by simpa using hr)
  case unique => exact fun r r' hr hr' => h.unique r r' (by simpa using hr) (by simpa using hr')
  case buffered =>
    intro r hr
    rw [buffers_insertTransmited] at hr
    exact List.mem_append_left _ (h.buffered r hr)
  case present =>
    intro r hr
    have hr' := h.present r (by simpa using hr)
    rw [buffers_insertTransmited, mem_insertTransmited]
    exact hr'.imp_right Or.inl
  case accepted =>
    intro id hid
    rcases mem_insertTransmited.mp hid with hid | rfl
    · exact h.accepted_more _ hid
    · exact ⟨row, rfl, List.mem_append_left _ (hpending.saved row List.mem_cons_self), List.mem_append_left _ hposted⟩
  case recorded =>
    intro id hid
    rw [mem_insertTransmited]
    rcases List.mem_append.mp hid with hid | hid
    · exact Or.inl (h.recorded id hid)
    · exact Or.inr (BufferEvent.recorded.inj (List.mem_singleton.mp hid))
  case phase =>
    refine ⟨hsorted, fun r hr => List.mem_append_left _ (hpending.saved r (List.mem_cons_of_mem _ hr)), fun r hr => ?_⟩
    have hlt := hfirst r hr
    rw [mem_insertTransmited]
    rintro (hid | hid)
    · exact hpending.unrecorded r (List.mem_cons_of_mem _ hr) hid
    · omega
  case once => exact once_append h.once fun _ _ _ => by simp

/-- A row that was recorded is deleted. -/
theorem Kept.delete {trace : List (BufferEvent Text)} {database : Database Text} {id : Nat} {ids : List Nat}
    (h : Kept trace ⟨database, .deleting (id :: ids)⟩) : Kept trace ⟨deleteBuffer database id, .deleting ids⟩ := by
  have hids : ∀ i ∈ id :: ids, i ∈ database.transmited := h.phase
  exact {
    sorted := h.sorted.filter _
    given := h.given
    unique := h.unique
    buffered := fun r hr => h.buffered r (List.mem_filter.mp hr).1
    present := fun r hr => by
      by_cases hid : r.bufferId = id
      · exact Or.inr (hid ▸ hids id List.mem_cons_self)
      · exact (h.present r hr).imp_left fun hmem => List.mem_filter.mpr ⟨hmem, by simpa using hid⟩
    accepted := h.accepted
    recorded := h.recorded
    phase := fun i hi => hids i (List.mem_cons_of_mem _ hi)
    once := h.once }

/-- Every step keeps the invariant. -/
theorem Kept.step {trace : List (BufferEvent Text)} {s s' : Buffers Text} {op : BufferOp Text}
    {events : List (BufferEvent Text)} (h : Kept trace s) (hstep : bufferStep s op = some (s', events)) :
    Kept (trace ++ events) s' := by
  obtain ⟨database, transmission⟩ := s
  cases op with
  | save url buffer seen =>
    rw [bufferStep] at hstep
    rcases hrow : newBufferRow database url buffer with _ | row
    · simp only [hrow, Option.some.injEq, Prod.mk.injEq] at hstep
      obtain ⟨rfl, rfl⟩ := hstep
      rwa [List.append_nil]
    · have hid : row.bufferId = database.sequence + 1 := by
        obtain ⟨_, _, hrow'⟩ := Option.bind_eq_some_iff.mp hrow
        obtain ⟨_, _, rfl⟩ := Option.map_eq_some_iff.mp hrow'
        rfl
      simp only [hrow, dbSaveBuffer, Option.some.injEq, Prod.mk.injEq] at hstep
      obtain ⟨rfl, rfl⟩ := hstep
      exact h.save hid seen
  | select =>
    cases transmission <;> simp only [bufferStep, reduceCtorEq, Option.some.injEq, Prod.mk.injEq] at hstep
    obtain ⟨rfl, rfl⟩ := hstep
    rw [List.append_nil]
    exact h.move h.pending
  | post success =>
    rcases transmission with _ | (_ | ⟨row, rows⟩) | _ | _ <;>
      simp only [bufferStep, reduceCtorEq, Option.some.injEq, Prod.mk.injEq] at hstep
    obtain ⟨rfl, rfl⟩ := hstep
    exact h.post success
  | record =>
    cases transmission <;> simp only [bufferStep, reduceCtorEq, Option.some.injEq, Prod.mk.injEq] at hstep
    obtain ⟨rfl, rfl⟩ := hstep
    exact h.record
  | selectTransmited =>
    rcases transmission with _ | (_ | ⟨row, rows⟩) | _ | _ <;>
      simp only [bufferStep, reduceCtorEq, Option.some.injEq, Prod.mk.injEq] at hstep
    obtain ⟨rfl, rfl⟩ := hstep
    rw [List.append_nil]
    exact h.move fun id hid => (List.mem_filter.mp hid).1
  | delete =>
    rcases transmission with _ | _ | _ | (_ | ⟨id, ids⟩) <;>
      simp only [bufferStep, reduceCtorEq, Option.some.injEq, Prod.mk.injEq] at hstep
    obtain ⟨rfl, rfl⟩ := hstep
    rw [List.append_nil]
    exact h.delete
  | finish =>
    rcases transmission with _ | _ | _ | (_ | ⟨id, ids⟩) <;>
      simp only [bufferStep, reduceCtorEq, Option.some.injEq, Prod.mk.injEq] at hstep
    obtain ⟨rfl, rfl⟩ := hstep
    rw [List.append_nil]
    exact h.move trivial
  | stop =>
    simp only [bufferStep, Option.some.injEq, Prod.mk.injEq] at hstep
    obtain ⟨rfl, rfl⟩ := hstep
    rw [List.append_nil]
    exact h.move trivial

/-- It holds of the tables as they are created. -/
theorem kept_created : Kept ([] : List (BufferEvent Text)) ⟨Database.created, .idle⟩ := by
  constructor <;> simp [Database.created, PhaseOk]

/-- It holds after every run. -/
theorem Kept.run {ops : List (BufferOp Text)} {s : Buffers Text} {trace : List (BufferEvent Text)}
    (h : Runs.execute bufferStep ⟨Database.created, .idle⟩ ops = some (s, trace)) : Kept trace s :=
  Runs.execute_invariant (fun _ _ _ _ _ hinv _ hstep => hinv.step hstep) ops kept_created (Runs.along_of_forall (fun _ _ => trivial) _) h

/-- A row that was recorded had a post that succeeded: ids are given once. -/
theorem Kept.posted {trace : List (BufferEvent Text)} {s : Buffers Text} (h : Kept trace s) {row : BufferRow Text}
    (hsaved : .saved row ∈ trace) (hid : row.bufferId ∈ s.database.transmited) : .posted row true ∈ trace := by
  obtain ⟨row', hrow', hsaved', hposted'⟩ := h.accepted _ hid
  rwa [h.unique row row' hsaved hsaved' hrow'.symm]

/-- A row that is gone had a post that succeeded. -/
theorem Kept.posted_of_gone {trace : List (BufferEvent Text)} {s : Buffers Text} (h : Kept trace s) {row : BufferRow Text}
    (hsaved : .saved row ∈ trace) (hgone : row ∉ s.database.buffers) : .posted row true ∈ trace :=
  h.posted hsaved ((h.present row hsaved).resolve_left hgone)

end BuffersAux

/-- In every run, from the tables as they are created: a row that is no longer in `buffers` had a post that succeeded; a row
that had none is in `buffers` and is selected by both queries; and a row is not posted any more once it is recorded. -/
theorem buffers_neither_lost_nor_replayed {ops : List (BufferOp Text)} {s : Buffers Text}
    {trace : List (BufferEvent Text)}
    (h : Runs.execute bufferStep ⟨Database.created, .idle⟩ ops = some (s, trace)) :
    (∀ row, .saved row ∈ trace → row ∉ s.database.buffers → .posted row true ∈ trace) ∧
    (∀ row, .saved row ∈ trace → .posted row true ∉ trace →
      row ∈ s.database.buffers ∧ row ∈ buffersToTransmit s.database ∧ dbIsThereBuffersToTransmit s.database = true) ∧
    trace.Pairwise fun e e' => ∀ (row : BufferRow Text) success, e = .recorded row.bufferId → e' ≠ .posted row success := by
  have hkept := BuffersAux.Kept.run h
  refine ⟨fun row => hkept.posted_of_gone, fun row hsaved hnever => ?_, hkept.once⟩
  · have hid : row.bufferId ∉ s.database.transmited := fun hid => hnever (hkept.posted hsaved hid)
    have hrow := (hkept.present row hsaved).resolve_right hid
    exact ⟨hrow, mem_buffersToTransmit hrow hid⟩

/-- A request is saved and its post fails; it is posted again and the program stops before it is recorded; another request is
saved while the query runs, which sees it; the first is posted once more, recorded and deleted. -/
def stoppedTransmission : List (BufferOp Nat) :=
  [.save (some "/Meta.json") (some 7) false, .select, .post false, .selectTransmited, .finish, .select, .post true, .stop,
    .select, .save (some "/Data.json") (some 8) true, .post true, .record, .post false, .selectTransmited, .delete, .finish]

/-- In that run the first request is gone, after a post that succeeded, and the second is still there and selected. -/
theorem stoppedTransmission_kept :
    ∃ s trace, Runs.execute bufferStep ⟨Database.created, .idle⟩ stoppedTransmission = some (s, trace) ∧
      s.database.buffers = [⟨2, "/Data.json", 8⟩] ∧
      (∀ row, .saved row ∈ trace → row ∉ s.database.buffers → .posted row true ∈ trace) ∧
      (∀ row, .saved row ∈ trace → .posted row true ∉ trace →
        row ∈ s.database.buffers ∧ row ∈ buffersToTransmit s.database ∧ dbIsThereBuffersToTransmit s.database = true) ∧
      trace.Pairwise fun e e' => ∀ (row : BufferRow Nat) success, e = .recorded row.bufferId →
        e' ≠ .posted row success := by
  have hrun : (Runs.execute bufferStep ⟨Database.created, .idle⟩ stoppedTransmission).map
      (fun r => r.1.database.buffers) = some [⟨2, "/Data.json", 8⟩] := by decide
  obtain ⟨⟨s, trace⟩, hexecute, hbuffers⟩ := Option.map_eq_some_iff.mp hrun
  exact ⟨s, trace, hexecute, hbuffers, buffers_neither_lost_nor_replayed hexecute⟩

end Sauvegarde
