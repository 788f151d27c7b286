import Sauvegarde.Backup
import Sauvegarde.Lib.Refinement
import Sauvegarde.Theorems.Carving
import Sauvegarde.Theorems.Incremental
import Sauvegarde.Theorems.RoundTrip

/-!
# From the directories to the records

Over every run of the clients with all their threads and of their server: when all of them are done, the server has a record for
every entry below the directories of every client that is not excluded, and no other record. Each client is followed in three ways at
once, by the run of its threads that carve and save, by the entries of its cache, and by the files that the system began to save.
-/

namespace Sauvegarde

open Refinement (Traces)

namespace BackupAux

open CarvingAux IncrementalAux RoundTripAux

/-! ## The files that are saved -/

/-- The options after an event do not depend on what the cache answered. -/
theorem opt_getMetaDataFromFileinfo (exclude : CString → Bool) (opt : Options) (event : FileEvent) (inCache : Bool) :
    (getMetaDataFromFileinfo exclude opt event inCache).1 = (getMetaDataFromFileinfo exclude opt event false).1 := by
  simp only [getMetaDataFromFileinfo]
  split_ifs <;> rfl

theorem hostname_calculateFileBlocksize (opt : Options) (size : Int64) :
    (calculateFileBlocksize opt size).1.main.hostname = opt.main.hostname := by
  simp only [calculateFileBlocksize]
  split_ifs <;> rfl

/-- The options keep the name of the host. -/
theorem hostname_getMetaDataFromFileinfo (exclude : CString → Bool) (opt : Options) (event : FileEvent) (inCache : Bool) :
    (getMetaDataFromFileinfo exclude opt event inCache).1.main.hostname = opt.main.hostname := by
  simp only [getMetaDataFromFileinfo]
  split_ifs
  · exact hostname_calculateFileBlocksize opt _
  · rfl

section

variable (exclude : CString → Bool) (opt : Options) (files : FilesTable) (event : FileEvent) (source : FileSource)

theorem hostname_lookedUp : (lookedUp exclude opt files event source).main.hostname = opt.main.hostname :=
  hostname_getMetaDataFromFileinfo exclude opt event _

theorem excluded_lookedUp :
    (lookedUp exclude opt files event source).excluded = exclude (gBuildPath event.directory event.fileinfo.name) := by
  simp only [lookedUp, fileOfEvent, getMetaDataFromFileinfo]
  split_ifs with h
  · exact h.symm
  · exact (Bool.eq_true_of_not_eq_false h).symm

theorem name_lookedUp :
    (lookedUp exclude opt files event source).metaData.name = some (gBuildPath event.directory event.fileinfo.name) := by
  simp only [lookedUp, fileOfEvent, getMetaDataFromFileinfo]
  split_ifs <;> rfl

theorem fileType_lookedUp : (lookedUp exclude opt files event source).metaData.fileType = event.fileinfo.fileType := by
  simp only [lookedUp, fileOfEvent, getMetaDataFromFileinfo]
  split_ifs <;> rfl

end

/-- The record of a file is that of its entry. -/
theorem recordsEntry_of_recordOf {sha256 : Bytes → Hash} {file : FileToSave} {smeta : ServerMetaData} (h : RecordOf sha256 file smeta)
    {e : Entry} (hname : file.metaData.name = some (gBuildPath e.directory e.name))
    (htype : file.metaData.fileType = G_FILE_TYPE_DIRECTORY ↔ e.isDirectory = true) :
    RecordsEntry file.main.hostname smeta e := by
  obtain ⟨-, list, m, rfl, hsame, -⟩ := h
  exact ⟨rfl, m, rfl, hsame.name.trans hname, by rw [hsame.fileType]; exact htype⟩

/-! ## The threads that carve and save -/

section

variable {fs : LocalFiles} {currentDir : Location} {exclude : CString → Bool} {sha256 : Bytes → Hash} {z : Zlib}

/-- A step of the thread that carves is one whatever the other thread does. What it adds to the queue was pushed. -/
theorem carvingStep_carve {s s' : Carving} (h : CarvingStep fs currentDir exclude sha256 z s s') (hsaving : s.saving = none)
    (hsaving' : s'.saving = none) : (∀ saving, CarvingStep fs currentDir exclude sha256 z { s with saving := saving }
      { s' with saving := saving }) ∧ s'.opt = s.opt ∧ ∃ more, s'.pushed = s.pushed ++ more ∧ s'.saveQueue = s.saveQueue ++ more := by
  cases h with
  | carveListed hidle hlisted hcarve =>
    exact ⟨fun _ => .carveListed hidle hlisted hcarve, rfl, [], (List.append_nil _).symm, (List.append_nil _).symm⟩
  | nextFile hgives => exact ⟨fun _ => .nextFile hgives, rfl, _, rfl, rfl⟩
  | close hgives => exact ⟨fun _ => .close hgives, rfl, [], (List.append_nil _).symm, (List.append_nil _).symm⟩
  | carveQueued hidle hlisted hqueue hcarve =>
    exact ⟨fun _ => .carveQueued hidle hlisted hqueue hcarve, rfl, [], (List.append_nil _).symm, (List.append_nil _).symm⟩
  | popEvent => exact absurd hsaving' (Option.some_ne_none _)
  | operation _ hop => exact absurd (hsaving.symm.trans hop).symm (Option.some_ne_none _)
  | saved hret => exact absurd (hsaving.symm.trans hret).symm (Option.some_ne_none _)

/-- A program that is at its end is done with. -/
theorem carvingRun_settle (s : Carving) (p : ClientProg Unit) :
    CarvingRun fs currentDir exclude sha256 z { s with saving := some p } { s with saving := savingOf p } := by
  cases p with
  | ret => exact .single (.saved rfl)
  | call op k => exact .refl

/-- An operation of the saving thread. -/
theorem carvingRun_operation (s : Carving) {op : ClientOp} (k : ClientRes op → ClientProg Unit) (r : ClientRes op) :
    CarvingRun fs currentDir exclude sha256 z { s with saving := savingOf (.call op k) }
      { s with dirQueue := s.dirQueue ++ op.pushedDirectory.toList, saving := savingOf (k r) } :=
  .head (.operation r rfl) (carvingRun_settle { s with dirQueue := s.dirQueue ++ op.pushedDirectory.toList } (k r))

/-- An event is taken out of the queue, and the saving of its file begins. -/
theorem carvingRun_pop {s : Carving} {event : FileEvent} {saveQueue : List FileEvent} (hsaving : s.saving = none)
    (hqueue : s.saveQueue = event :: saveQueue) (inCache : Bool) (source : FileSource) :
    CarvingRun fs currentDir exclude sha256 z s
      { s with
        opt := (getMetaDataFromFileinfo exclude s.opt event false).1
        saveQueue := saveQueue
        saving := savingOf (saveOneFile sha256 z (fileOfEvent exclude s.opt event inCache source)) } := by
  rw [← opt_getMetaDataFromFileinfo exclude s.opt event inCache]
  exact .head (.popEvent inCache source hsaving hqueue) (carvingRun_settle
    { s with opt := (getMetaDataFromFileinfo exclude s.opt event inCache).1, saveQueue := saveQueue } _)

/-- When the threads wait, the entries that were pushed are those below the listed directories. -/
theorem pushed_iff {opt : Options} {dirnameList : List CString} {s : Carving} (hfinite : {place | fs.node place ≠ none}.Finite)
    (hnamed : WellNamed fs) (hrun : CarvingRun fs currentDir exclude sha256 z (Carving.started opt dirnameList) s) (hidle : s.Idle)
    (e : Entry) : (∃ event ∈ s.pushed, event.entry = e) ↔ ∃ directory ∈ dirnameList, IsBelow fs currentDir exclude directory e := by
  obtain ⟨rest, hrest, hsteps⟩ := stock_run hrun (show WillPush (Carving.started opt dirnameList).saving [] from rfl)
  rw [hidle.saving] at hrest
  have hnothing : rest = [] := hrest
  have hbegin : stockOf (Carving.started opt dirnameList) [] = ⟨↑dirnameList, 0, 0, 0⟩ := by
    simp [stockOf, Carving.started, foundEntries]
  rw [hbegin] at hsteps
  have hhanded := hsteps.handed_of_done (totals_carvingRules hfinite hnamed)
    (by simp [stockOf, hidle.listed, hidle.dirQueue, hnothing]) (by simp [stockOf, hidle.enumerator, foundEntries])
    (by simp [stockOf, hidle.saveQueue])
  have hmem : (∃ event ∈ s.pushed, event.entry = e) ↔ e ∈ (stockOf s rest).handed := by simp [stockOf]
  rw [hmem, hhanded, Multiset.mem_bind]
  simp only [Multiset.mem_coe, mem_allBelow]

end

/-! ## The steps of the system -/

/-- The saving thread went on with the answer to a request. -/
def Answered (thread thread' : ClientProg Unit) : Prop :=
  ∃ (op : ClientOp) (k : ClientRes op → ClientProg Unit) (r : ClientRes op), thread = .call op k ∧ thread' = k r ∧ op.sends = true

theorem clients_failed {C : Type} (s : System C) (processed : Bool) (request : Option (String × Json)) :
    (s.failed processed request).clients = s.clients := by
  unfold System.failed
  split <;> rfl

section

variable {C : Type} [DecidableEq C] {backend : FileBackend} {sha256 : Bytes → Hash} {z : Zlib}

/-- A client changes, and its thread does not. -/
theorem thread_setClient {s s₀ : System C} (hclients : s.clients = s₀.clients) {c : C} {client : Client}
    (hthread : client.thread = (s₀.clients c).thread) (c' : C) :
    ((s.setClient c client).clients c').thread = (s₀.clients c').thread := by
  by_cases hc : c' = c
  · subst hc
    simp only [System.setClient, Function.update_self, hthread]
  · simp only [System.setClient, Function.update_of_ne hc, hclients]

/-- A client's thread goes on, and the others stay where they are. -/
theorem answered_setClient {s s₀ : System C} (hclients : s.clients = s₀.clients) {c : C} {client : Client}
    (hthread : Answered (s₀.clients c).thread client.thread) (c' : C) :
    ((s.setClient c client).clients c').thread = (s₀.clients c').thread ∨
      Answered (s₀.clients c').thread ((s.setClient c client).clients c').thread := by
  by_cases hc : c' = c
  · subst hc
    right
    simpa only [System.setClient, Function.update_self] using hthread
  · left
    simp only [System.setClient, Function.update_of_ne hc, hclients]

/-- A step of the system that does not touch the cache or the queues of a client leaves its saving thread where it is, or is the answer
to a request. -/
theorem thread_of_elsewhere {s s' : System C} {op : SystemOp C} (hop : op.IsElsewhere)
    (h : nextSystem backend sha256 z s op = some s') (c : C) :
    (s'.clients c).thread = (s.clients c).thread ∨ Answered (s.clients c).thread (s'.clients c).thread := by
  cases op with
  | start c' file => exact hop.elim
  | enter c' => exact hop.elim
  | serve c' =>
    simp only [nextSystem, serve] at h
    split at h
    · cases h
      exact Or.inl (thread_setClient (by rfl) (by rfl) c)
    · cases h
  | deliver c' success =>
    simp only [nextSystem, deliver] at h
    split at h
    · rename_i url readbuffer held k hthread
      split at h
      · obtain ⟨answer, -, rfl⟩ := Option.map_eq_some_iff.mp h
        exact answered_setClient rfl ⟨_, k, some answer, hthread, rfl, rfl⟩ c
      · cases h
        exact answered_setClient (clients_failed ..) ⟨_, k, none, hthread, rfl, rfl⟩ c
    · cases h
  | keep c' seen =>
    simp only [nextSystem, keep] at h
    split at h
    · rename_i url buffer held k hthread
      obtain ⟨⟨buffers, events⟩, -, rfl⟩ := Option.map_eq_some_iff.mp h
      exact answered_setClient rfl ⟨_, k, (), hthread, rfl, rfl⟩ c
    · cases h
  | serveRow c' =>
    simp only [nextSystem, serveRow] at h
    split at h
    · cases h
      exact Or.inl (thread_setClient (by rfl) (by rfl) c)
    · cases h
  | transmit c' op =>
    left
    simp only [nextSystem, transmit] at h
    split at h
    · cases h
    · cases h
    · split at h
      · obtain ⟨⟨buffers, events⟩, -, rfl⟩ := Option.map_eq_some_iff.mp h
        exact thread_setClient (by rfl) (by rfl) c
      · cases h
    · obtain ⟨⟨buffers, events⟩, -, rfl⟩ := Option.map_eq_some_iff.mp h
      exact thread_setClient (clients_failed ..) (by rfl) c
    · obtain ⟨⟨buffers, events⟩, -, rfl⟩ := Option.map_eq_some_iff.mp h
      exact thread_setClient (by rfl) (by rfl) c
  | arrive n =>
    obtain ⟨⟨url, body⟩, -, rfl⟩ := Option.map_eq_some_iff.mp h
    exact Or.inl rfl
  | metaDataThread =>
    simp only [nextSystem, metaDataThread] at h
    split at h <;> cases h
    exact Or.inl rfl
  | dataThread =>
    simp only [nextSystem, dataThread] at h
    split at h <;> cases h
    exact Or.inl rfl

end

/-! ## One client -/

section

variable {C : Type} (host : Host) (sha256 : Bytes → Hash) (z : Zlib) (c : C) (opt : Options) (dirnameList : List CString)

/-- The file of an event, as the client looked it up at some moment. -/
def FileOf (event : FileEvent) (file : FileToSave) : Prop :=
  ∃ (opt' : Options) (files : FilesTable) (source : FileSource), opt'.main.hostname = opt.main.hostname ∧
    file = lookedUp host.exclude opt' files event source

/-- What holds of a client after every run, when its system began with some files: its threads that carve and save made a run of
`Carving`, its cache has the entries of a trace, every entry is that of a file that was saved, and what was pushed waits in the queue,
or its file was begun with and is excluded, saved or in the cache. -/
structure ClientKept (ops : List (SystemOp C)) (s : Backup C) (trace : List CachingEvent) : Prop where
  quiet : (s.carvers c).carving.saving = none
  run : CarvingRun host.fs host.currentDir host.exclude sha256 z (Carving.started opt dirnameList) (s.carving c)
  hostname : (s.carvers c).carving.opt.main.hostname = opt.main.hostname
  entries : Entries trace (s.caching c)
  queued : ∀ event ∈ (s.carvers c).carving.saveQueue, event ∈ (s.carvers c).carving.pushed
  current : (s.system.clients c).thread = .ret () ∨ ∃ file, .start c file ∈ ops ∧ file.excluded = false ∧
    bindValuesToGetFileId file.metaData = (s.carvers c).current ∧
      (file.metaData.inCache = true → (s.carvers c).current ∈ enteredVersions trace)
  entered : ∀ version ∈ enteredVersions trace, ∃ file, .start c file ∈ ops ∧ file.Saved ∧
    bindValuesToGetFileId file.metaData = version
  begun : ∀ event ∈ (s.carvers c).carving.pushed, event ∈ (s.carvers c).carving.saveQueue ∨
    ∃ file, .start c file ∈ ops ∧ FileOf host opt event file ∧
      (file.Saved ∨ file.excluded = true ∨ bindValuesToGetFileId file.metaData ∈ enteredVersions trace)
  pushed : ∀ file, .start c file ∈ ops → ∃ event ∈ (s.carvers c).carving.pushed, FileOf host opt event file

variable {host sha256 z c opt dirnameList} {ops ops' : List (SystemOp C)} {s s' : Backup C} {trace : List CachingEvent}

/-- A step that is none of the client's. -/
theorem ClientKept.frame (h : ClientKept host sha256 z c opt dirnameList ops s trace) (hcarver : s'.carvers c = s.carvers c)
    (hthread : (s'.system.clients c).thread = (s.system.clients c).thread)
    (hstarts : ∀ file, .start c file ∈ ops' ↔ .start c file ∈ ops) :
    ClientKept host sha256 z c opt dirnameList ops' s' trace where
  quiet := hcarver ▸ h.quiet
  run := by
    have hsame : s'.carving c = s.carving c := by rw [Backup.carving, hcarver, hthread, Backup.carving]
    rw [hsame]
    exact h.run
  hostname := by rw [hcarver]; exact h.hostname
  entries := by
    have hsame : s'.caching c = s.caching c := by rw [Backup.caching, hcarver, hthread, Backup.caching]
    rw [hsame]
    exact h.entries
  queued := by
    rw [hcarver]
    exact h.queued
  current := by
    rw [hthread, hcarver]
    refine h.current.imp_right ?_
    rintro ⟨file, hstart, hrest⟩
    exact ⟨file, (hstarts file).mpr hstart, hrest⟩
  entered := by
    intro version hversion
    obtain ⟨file, hstart, hrest⟩ := h.entered version hversion
    exact ⟨file, (hstarts file).mpr hstart, hrest⟩
  begun := by
    rw [hcarver]
    intro event hevent
    refine (h.begun event hevent).imp_right ?_
    rintro ⟨file, hstart, hrest⟩
    exact ⟨file, (hstarts file).mpr hstart, hrest⟩
  pushed := by
    rw [hcarver]
    exact fun file hstart => h.pushed file ((hstarts file).mp hstart)

theorem carving_enter (carver : Carver) (cacheTime : UInt64) (op : ClientOp) : (carver.enter cacheTime op).carving =
    { carver.carving with dirQueue := carver.carving.dirQueue ++ op.pushedDirectory.toList } := by
  cases op <;> simp [Carver.enter, ClientOp.pushedDirectory]

/-- The saving thread goes on with the answer to its operation. -/
theorem ClientKept.answer (h : ClientKept host sha256 z c opt dirnameList ops s trace) {reply : Option Json} {cacheTime : UInt64}
    {events : List CachingEvent} (hanswer : answerOp (s.caching c) reply cacheTime = some (s'.caching c, events))
    (hcarver : ∀ op k, (s.system.clients c).thread = .call op k → s'.carvers c = (s.carvers c).enter cacheTime op)
    (hstarts : ∀ file, .start c file ∈ ops' ↔ .start c file ∈ ops) :
    ClientKept host sha256 z c opt dirnameList ops' s' (trace ++ events) := by
  obtain ⟨op, k, r, hthread, hthread', hcurrent, -, hevents⟩ := answerOp_spec hanswer
  have hcarver' := hcarver op k hthread
  have hcarving := carving_enter (s.carvers c) cacheTime op
  rw [← hcarver'] at hcarving
  have hsame : (s'.carvers c).carving.opt = (s.carvers c).carving.opt ∧ (s'.carvers c).carving.pushed = (s.carvers c).carving.pushed ∧
      (s'.carvers c).carving.saveQueue = (s.carvers c).carving.saveQueue ∧
        (s'.carvers c).carving.saving = (s.carvers c).carving.saving := by
    rw [hcarving]
    exact ⟨rfl, rfl, rfl, rfl⟩
  have hmore : ∀ version ∈ enteredVersions trace, version ∈ enteredVersions (trace ++ events) := fun version hversion => by
    rw [enteredVersions_append]
    exact List.mem_append_left _ hversion
  -- a version that is entered now is that of the file that is being saved, which was not in the cache
  obtain ⟨⟨hnew, hversion⟩, -⟩ : (onceRules (s.caching c).current).pre
      (decide ((s.caching c).current ∈ enteredVersions trace)) op ∧ _ := hthread ▸ h.entries.thread
  obtain ⟨file, hstart, hexcluded, hfile, hcached⟩ := h.current.resolve_left fun hret => by
    cases (show (s.system.clients c).thread = .call op k from hthread).symm.trans hret
  have hnow : ∀ version ∈ enteredVersions events, version = (s.carvers c).current ∧ file.Saved := by
    intro version hmem
    rcases hevents with ⟨rfl, -, -⟩ | ⟨v, rfl, hop⟩ | ⟨rfl, -⟩
    · exact absurd hmem (by simp [enteredVersions])
    · obtain rfl : version = v := by simpa [enteredVersions] using hmem
      have hout : (s.carvers c).current ∉ enteredVersions trace :=
        of_decide_eq_false (hnew (.inr (hop ▸ Option.some_ne_none version)))
      exact ⟨hversion version hop, hexcluded, Bool.eq_false_of_not_eq_true fun hin => hout (hcached hin)⟩
    · exact absurd hmem (by simp [enteredVersions])
  refine ⟨hsame.2.2.2.trans h.quiet, ?_, by rw [hsame.1]; exact h.hostname, h.entries.answer hanswer,
    by rw [hsame.2.1, hsame.2.2.1]; exact h.queued, ?_, ?_, ?_, ?_⟩
  · have hrun := @carvingRun_operation host.fs host.currentDir host.exclude sha256 z (s.carvers c).carving op k r
    have hbefore : s.carving c = { (s.carvers c).carving with saving := savingOf (.call op k) } := by
      rw [Backup.carving, show (s.system.clients c).thread = .call op k from hthread]
    have hafter : s'.carving c = { (s.carvers c).carving with
        dirQueue := (s.carvers c).carving.dirQueue ++ op.pushedDirectory.toList, saving := savingOf (k r) } := by
      rw [Backup.carving, show (s'.system.clients c).thread = k r from hthread', hcarving]
    rw [hafter]
    exact (hbefore ▸ h.run).trans hrun
  · have hsameCurrent : (s'.carvers c).current = (s.carvers c).current := hcurrent
    rw [hsameCurrent]
    exact .inr ⟨file, (hstarts file).mpr hstart, hexcluded, hfile, fun hin => hmore _ (hcached hin)⟩
  · intro version hmem
    rw [enteredVersions_append, List.mem_append] at hmem
    rcases hmem with hmem | hmem
    · obtain ⟨file', hstart', hrest⟩ := h.entered version hmem
      exact ⟨file', (hstarts file').mpr hstart', hrest⟩
    · obtain ⟨rfl, hsaved⟩ := hnow version hmem
      exact ⟨file, (hstarts file).mpr hstart, hsaved, hfile⟩
  · rw [hsame.2.1, hsame.2.2.1]
    intro event hevent
    refine (h.begun event hevent).imp_right ?_
    rintro ⟨file', hstart', hof, hdone⟩
    exact ⟨file', (hstarts file').mpr hstart', hof, hdone.imp_right fun hdone => hdone.imp_right (hmore _)⟩
  · rw [hsame.2.1]
    exact fun file' hstart' => h.pushed file' ((hstarts file').mp hstart')

/-- The thread that carves makes a step. -/
theorem ClientKept.carve (h : ClientKept host sha256 z c opt dirnameList ops s trace) {carving : Carving}
    (hstep : CarvingStep host.fs host.currentDir host.exclude sha256 z (s.carvers c).carving carving) (hsaving : carving.saving = none)
    (hcarver : s'.carvers c = { s.carvers c with carving := carving }) (hsystem : s'.system = s.system) :
    ClientKept host sha256 z c opt dirnameList ops s' trace := by
  obtain ⟨hsteps, hopt, more, hpushed, hqueue⟩ := carvingStep_carve hstep h.quiet hsaving
  refine ⟨by rw [hcarver]; exact hsaving, ?_, by rw [hcarver]; exact hopt ▸ h.hostname, ?_, ?_, ?_, ?_, ?_, ?_⟩
  · rw [Backup.carving, hcarver, hsystem]
    exact h.run.tail (hsteps _)
  · have hsame : s'.caching c = s.caching c := by rw [Backup.caching, hcarver, hsystem, hopt, Backup.caching]
    rw [hsame]
    exact h.entries
  · rw [hcarver, hpushed, hqueue]
    intro event hevent
    exact List.mem_append.mpr ((List.mem_append.mp hevent).imp_left (h.queued event))
  · rw [hsystem, hcarver]
    exact h.current
  · exact h.entered
  · rw [hcarver, hpushed, hqueue]
    intro event hevent
    rcases List.mem_append.mp hevent with hevent | hevent
    · exact (h.begun event hevent).imp_left fun hmem => List.mem_append_left _ hmem
    · exact .inl (List.mem_append_right _ hevent)
  · rw [hcarver, hpushed]
    intro file hstart
    obtain ⟨event, hevent, hof⟩ := h.pushed file hstart
    exact ⟨event, List.mem_append_left _ hevent, hof⟩

/-- An event is taken out of the queue, and the saving thread begins with its file. -/
theorem ClientKept.pop (h : ClientKept host sha256 z c opt dirnameList ops s trace) {event : FileEvent} {saveQueue : List FileEvent}
    {source : FileSource} (hqueue : (s.carvers c).carving.saveQueue = event :: saveQueue)
    (hthread : (s.system.clients c).thread = .ret ())
    (hthread' : (s'.system.clients c).thread =
      saveOneFile sha256 z (lookedUp host.exclude (s.carvers c).carving.opt (s.carvers c).files event source))
    (hcarver : s'.carvers c = (s.carvers c).popped host.exclude event saveQueue) :
    ∃ trace', ClientKept host sha256 z c opt dirnameList
      (ops ++ [.start c (lookedUp host.exclude (s.carvers c).carving.opt (s.carvers c).files event source)]) s' trace' := by
  have hof : FileOf host opt event (lookedUp host.exclude (s.carvers c).carving.opt (s.carvers c).files event source) :=
    ⟨_, _, source, h.hostname, rfl⟩
  have hpushed : event ∈ (s.carvers c).carving.pushed := h.queued event (hqueue ▸ List.mem_cons_self)
  have hentries := @Entries.save sha256 z host.exclude trace (s.caching c) h.entries hthread event source
  have hcached := @inCache_lookedUp host.exclude trace (s.caching c) h.entries event source
  have hversion := @version_lookedUp host.exclude (s.carvers c).carving.opt (s.carvers c).files event source
  have hidle : (s.carving c).saving = none := by rw [Backup.carving, hthread, savingOf]
  have hrun := @carvingRun_pop host.fs host.currentDir host.exclude sha256 z (s.carving c) event saveQueue hidle hqueue
    ((s.carvers c).files.isFileInCache (getMetaDataFromFileinfo host.exclude (s.carvers c).carving.opt event false).2.1) source
  have hafter : s'.carving c = { s.carving c with
      opt := (getMetaDataFromFileinfo host.exclude (s.carvers c).carving.opt event false).1
      saveQueue := saveQueue
      saving := savingOf (saveOneFile sha256 z
        (lookedUp host.exclude (s.carvers c).carving.opt (s.carvers c).files event source)) } := by
    rw [Backup.carving, hthread', hcarver]
    rfl
  have hcaching : s'.caching c = ⟨(getMetaDataFromFileinfo host.exclude (s.caching c).opt event false).1, (s.caching c).files,
      versionOfEvent host.exclude (s.caching c).opt event,
      saveOneFile sha256 z (lookedUp host.exclude (s.caching c).opt (s.caching c).files event source)⟩ := by
    rw [Backup.caching, hthread', hcarver]
    rfl
  have hquiet : enteredVersions (trace ++
      if (lookedUp host.exclude (s.caching c).opt (s.caching c).files event source).excluded then []
      else [.begun (versionOfEvent host.exclude (s.caching c).opt event)]) = enteredVersions trace := by
    split
    · rw [List.append_nil]
    · exact enteredVersions_append_quiet trace fun version => CachingEvent.noConfusion
  have hstill : ∀ file, .start c file ∈ ops → .start c file ∈ ops ++
      [.start c (lookedUp host.exclude (s.carvers c).carving.opt (s.carvers c).files event source)] :=
    fun file hstart => List.mem_append_left _ hstart
  have hnow : .start c (lookedUp host.exclude (s.carvers c).carving.opt (s.carvers c).files event source) ∈ ops ++
      [.start c (lookedUp host.exclude (s.carvers c).carving.opt (s.carvers c).files event source)] :=
    List.mem_append_right _ List.mem_cons_self
  refine ⟨_, ⟨?_, ?_, ?_, hcaching ▸ hentries, ?_, ?_, ?_, ?_, ?_⟩⟩
  · rw [hcarver]
    exact h.quiet
  · rw [hafter]
    exact h.run.trans hrun
  · rw [hcarver]
    exact (hostname_getMetaDataFromFileinfo ..).trans h.hostname
  · rw [hcarver]
    exact fun event' hevent' => h.queued event' (hqueue ▸ List.mem_cons_of_mem _ hevent')
  · rw [hquiet, hthread', hcarver]
    by_cases hexcluded : (lookedUp host.exclude (s.carvers c).carving.opt (s.carvers c).files event source).excluded = true
    · left
      rw [saveOneFile, if_neg (by rw [hexcluded]; decide)]
      rfl
    · have hout := Bool.eq_false_of_not_eq_true hexcluded
      refine .inr ⟨_, hnow, hout, hversion, fun hin => ?_⟩
      exact of_decide_eq_true ((hcached hout).symm.trans hin)
  · rw [hquiet]
    intro version hmem
    obtain ⟨file, hstart, hrest⟩ := h.entered version hmem
    exact ⟨file, hstill file hstart, hrest⟩
  · rw [hquiet, hcarver]
    intro event' hevent'
    rcases h.begun event' hevent' with hwaits | ⟨file, hstart, hrest⟩
    · rw [hqueue] at hwaits
      rcases List.mem_cons.mp hwaits with rfl | hwaits
      · -- the file is excluded, or in the cache, or it is saved now
        refine .inr ⟨_, hnow, hof, ?_⟩
        rcases hexcluded : (lookedUp host.exclude (s.carvers c).carving.opt (s.carvers c).files event' source).excluded with _ | _
        · rcases hin : (lookedUp host.exclude (s.carvers c).carving.opt (s.carvers c).files event' source).metaData.inCache with _ | _
          · exact .inl ⟨hexcluded, hin⟩
          · exact .inr (.inr (hversion ▸ of_decide_eq_true ((hcached hexcluded).symm.trans hin)))
        · exact .inr (.inl rfl)
      · exact .inl hwaits
    · exact .inr ⟨file, hstill file hstart, hrest⟩
  · rw [hcarver]
    intro file hstart
    rcases List.mem_append.mp hstart with hstart | hstart
    · exact h.pushed file hstart
    · obtain rfl := (SystemOp.start.inj (List.mem_singleton.mp hstart)).2
      exact ⟨event, hpushed, hof⟩

end

/-! ## All clients and the server -/

section

variable {C : Type} [DecidableEq C] {hosts : C → Host} {backend : FileBackend} {sha256 : Bytes → Hash} {z : Zlib}
  {opts : C → Options} {dirnameLists : C → List CString} {ops new : List (SystemOp C)} {s s' : Backup C}

/-- An answer to a request is an answer to the client with its cache. -/
theorem answerOp_of_answered {s : CachingClient} {thread : ClientProg Unit} (h : Answered s.thread thread) :
    ∃ reply, answerOp s reply 0 = some ({ s with thread := thread }, [.sent s.current]) := by
  obtain ⟨opt, files, current, before⟩ := s
  obtain ⟨op, k, r, hthread, rfl, hsends⟩ := h
  obtain rfl : before = .call op k := hthread
  cases op with
  | postUrl => exact ⟨r, rfl⟩
  | dbSaveBuffer => exact ⟨none, rfl⟩
  | dbSaveMetaData => cases hsends
  | dirQueuePush => cases hsends
  | crash => exact r.elim

/-- An entry in the cache or in a queue. -/
theorem answerOp_of_enter {op : ClientOp} {k : ClientRes op → ClientProg Unit} {c : C} {system : System C}
    (hthread : (s.system.clients c).thread = .call op k) (henter : enter s.system c = some system) (cacheTime : UInt64) :
    (∃ events, answerOp (s.caching c) none cacheTime =
      some ((Backup.setCarver ⟨system, s.carvers⟩ c ((s.carvers c).enter cacheTime op)).caching c, events)) ∧
        ∀ c' ≠ c, system.clients c' = s.system.clients c' := by
  have hbefore : s.caching c = ⟨(s.carvers c).carving.opt, (s.carvers c).files, (s.carvers c).current, .call op k⟩ := by
    rw [Backup.caching, hthread]
  rw [hbefore]
  simp only [Sauvegarde.enter, hthread] at henter
  cases op with
  | dbSaveMetaData metaData onlyMeta =>
    obtain rfl := Option.some.inj henter
    refine ⟨⟨[.entered (bindValuesToGetFileId metaData)], ?_⟩, fun c' hc => Function.update_of_ne hc ..⟩
    simp only [answerOp, Backup.caching, Backup.setCarver, System.setClient, Function.update_self]
    rfl
  | dirQueuePush directory =>
    obtain rfl := Option.some.inj henter
    refine ⟨⟨[], ?_⟩, fun c' hc => Function.update_of_ne hc ..⟩
    simp only [answerOp, Backup.caching, Backup.setCarver, System.setClient, Function.update_self]
    rfl
  | postUrl => cases henter
  | dbSaveBuffer => cases henter
  | crash => cases henter

/-- What holds after every run: the system made a run with the steps that were taken, and every client is kept. -/
structure BackupKept (hosts : C → Host) (backend : FileBackend) (sha256 : Bytes → Hash) (z : Zlib) (opts : C → Options)
    (dirnameLists : C → List CString) (ops : List (SystemOp C)) (s : Backup C) : Prop where
  system : Runs.execute (systemStep backend sha256 z) System.initial ops = some (s.system, [])
  client : ∀ c, ∃ trace, ClientKept (hosts c) sha256 z c (opts c) (dirnameLists c) ops s trace

theorem execute_systemStep {system system' : System C} {op : SystemOp C} (h : nextSystem backend sha256 z system op = some system') :
    Runs.execute (systemStep backend sha256 z) system [op] = some (system', []) := by
  simp [Runs.execute, systemStep, h]

theorem backupKept_started : BackupKept hosts backend sha256 z opts dirnameLists [] (Backup.started opts dirnameLists) where
  system := rfl
  client := fun c => ⟨[], rfl, .refl, rfl, entries_started (opts c), fun _ h => absurd h List.not_mem_nil, .inl rfl,
    fun _ h => absurd h List.not_mem_nil, fun _ h => absurd h List.not_mem_nil, fun _ h => absurd h List.not_mem_nil⟩

/-- A step of any party. -/
theorem BackupKept.step (h : BackupKept hosts backend sha256 z opts dirnameLists ops s)
    (hstep : BackupStep hosts backend sha256 z s new s') : BackupKept hosts backend sha256 z opts dirnameLists (ops ++ new) s' := by
  cases hstep with
  | @carve c carving hcarve hsaving =>
    rw [List.append_nil]
    refine ⟨h.system, fun c' => ?_⟩
    obtain ⟨trace, hclient⟩ := h.client c'
    by_cases hc : c' = c
    · subst hc
      exact ⟨trace, hclient.carve hcarve hsaving (Function.update_self ..) rfl⟩
    · exact ⟨trace, hclient.frame (Function.update_of_ne hc ..) rfl fun _ => Iff.rfl⟩
  | @popEvent c event saveQueue system source hqueue hstart =>
    refine ⟨Runs.execute_append h.system (execute_systemStep hstart), fun c' => ?_⟩
    unfold Sauvegarde.start at hstart
    split at hstart
    · rename_i hthread
      cases hstart
      obtain ⟨trace, hclient⟩ := h.client c'
      by_cases hc : c' = c
      · subst hc
        refine hclient.pop hqueue hthread ?_ (Function.update_self ..)
        simp only [Backup.setCarver, System.setClient, Function.update_self]
      · refine ⟨trace, hclient.frame (Function.update_of_ne hc ..) ?_ fun file => ?_⟩
        · simp only [Backup.setCarver, System.setClient, Function.update_of_ne hc]
        · simp [hc]
    · cases hstart
  | @enter c op k system cacheTime hthread henter =>
    refine ⟨Runs.execute_append h.system (execute_systemStep henter), fun c' => ?_⟩
    obtain ⟨⟨events, hanswer⟩, hothers⟩ := answerOp_of_enter hthread henter cacheTime
    obtain ⟨trace, hclient⟩ := h.client c'
    by_cases hc : c' = c
    · subst hc
      refine ⟨trace ++ events, hclient.answer hanswer (fun op' k' hthread' => ?_) fun file => by simp⟩
      obtain ⟨rfl, -⟩ := Prog.call.inj (hthread.symm.trans hthread')
      exact Function.update_self ..
    · exact ⟨trace, hclient.frame (Function.update_of_ne hc ..) (congrArg Client.thread (hothers c' hc)) fun file => by simp⟩
  | @elsewhere op system hop hnext =>
    refine ⟨Runs.execute_append h.system (execute_systemStep hnext), fun c => ?_⟩
    obtain ⟨trace, hclient⟩ := h.client c
    have hstarts : ∀ file, .start c file ∈ ops ++ [op] ↔ .start c file ∈ ops := fun file => by
      refine List.mem_append.trans (or_iff_left fun hmem => ?_)
      rw [← List.mem_singleton.mp hmem] at hop
      exact hop
    rcases thread_of_elsewhere hop hnext c with hsame | hanswered
    · exact ⟨trace, hclient.frame rfl hsame hstarts⟩
    · obtain ⟨reply, hanswer⟩ := @answerOp_of_answered (s.caching c) _ hanswered
      refine ⟨trace ++ [.sent _], hclient.answer hanswer (fun op' k' hthread' => ?_) hstarts⟩
      obtain ⟨op'', k'', r, hthread'', -, hsends⟩ := hanswered
      obtain ⟨rfl, -⟩ := Prog.call.inj (hthread''.symm.trans hthread')
      cases op'' <;> simp [ClientOp.sends, Carver.enter] at hsends ⊢

/-- A run. -/
theorem backupKept_run {steps : List (List (SystemOp C))}
    (hrun : Traces (BackupStep hosts backend sha256 z) (Backup.started opts dirnameLists) steps s) :
    BackupKept hosts backend sha256 z opts dirnameLists steps.flatten s := by
  have hstep : ∀ steps (s : Backup C) new s', BackupKept hosts backend sha256 z opts dirnameLists (List.flatten steps) s →
      BackupStep hosts backend sha256 z s new s' →
        BackupKept hosts backend sha256 z opts dirnameLists (List.flatten (steps ++ [new])) s' := fun steps s new s' hkept hstep => by
    rw [List.flatten_append, List.flatten_singleton]
    exact hkept.step hstep
  have hend := hrun.invariant hstep
    (show BackupKept hosts backend sha256 z opts dirnameLists (List.flatten []) (Backup.started opts dirnameLists) from
      backupKept_started)
  rwa [List.nil_append] at hend

end

end BackupAux

open BackupAux

/-- In every run of the clients and their server, whatever the order of the steps, the answers, the failures of posts and the contents of
the files: when all are done, every entry strictly below a directory of a client, without an excluded directory between the two and not
excluded itself, has a record on the server, that of a file that the client saved; and every record is that of such an entry. -/
theorem backup_coversTrees {C : Type} [DecidableEq C] (hosts : C → Host) (backend : FileBackend) (sha256 : Bytes → Hash) {z : Zlib}
    (hz : z.Writes) (opts : C → Options) (dirnameLists : C → List CString) {steps : List (List (SystemOp C))} {s : Backup C}
    (hfinite : ∀ c, {place | (hosts c).fs.node place ≠ none}.Finite) (hnamed : ∀ c, WellNamed (hosts c).fs)
    (hrun : Traces (BackupStep hosts backend sha256 z) (Backup.started opts dirnameLists) steps s) (hfinished : s.Finished)
    (hwritable : ∀ c file, .start c file ∈ steps.flatten → file.Saved → file.Writable) :
    (∀ c, ∀ directory ∈ dirnameLists c, ∀ e, IsBelow (hosts c).fs (hosts c).currentDir (hosts c).exclude directory e →
      (hosts c).exclude (gBuildPath e.directory e.name) = false →
        ∃ file, .start c file ∈ steps.flatten ∧ ∃ smeta ∈ s.system.records, RecordOf sha256 file smeta ∧
          RecordsEntry (opts c).main.hostname smeta e) ∧
    ∀ smeta ∈ s.system.records, ∃ c, ∃ directory ∈ dirnameLists c, ∃ e,
      IsBelow (hosts c).fs (hosts c).currentDir (hosts c).exclude directory e ∧
        (hosts c).exclude (gBuildPath e.directory e.name) = false ∧ RecordsEntry (opts c).main.hostname smeta e := by
  obtain ⟨hsystem, hclients⟩ := backupKept_run hrun
  obtain ⟨history, trace, hbooks⟩ := @RoundTripAux.Books.run C sha256 z backend _ hz _ _ _ hsystem
  -- what is known of a file that a client began with
  have hfileOf : ∀ {c : C} {event : FileEvent} {file : FileToSave}, FileOf (hosts c) (opts c) event file →
      file.main.hostname = (opts c).main.hostname ∧
        file.metaData.name = some (gBuildPath event.entry.directory event.entry.name) ∧
          (file.metaData.fileType = G_FILE_TYPE_DIRECTORY ↔ event.entry.isDirectory = true) ∧
            file.excluded = (hosts c).exclude (gBuildPath event.entry.directory event.entry.name) := by
    rintro c event file ⟨opt', files, source, hhost, rfl⟩
    refine ⟨(hostname_lookedUp ..).trans hhost, name_lookedUp .., ?_, excluded_lookedUp ..⟩
    rw [fileType_lookedUp]
    exact decide_eq_true_iff.symm
  constructor
  · intro c directory hdirectory e hbelow hexclude
    obtain ⟨trace, hclient⟩ := hclients c
    obtain ⟨event, hevent, rfl⟩ := (pushed_iff (hfinite c) (hnamed c) hclient.run (hfinished.carved c) e).mpr
      ⟨directory, hdirectory, hbelow⟩
    have hnothing : (s.carvers c).carving.saveQueue = [] := (hfinished.carved c).saveQueue
    obtain ⟨file, hstart, hof, hdone⟩ := (hclient.begun event hevent).resolve_left (hnothing ▸ List.not_mem_nil)
    obtain ⟨hhost, hname, htype, hexcluded⟩ := hfileOf hof
    -- the file of the event was saved, or another one with its version
    obtain ⟨saved, hstart', hsaved, hhost', hsame⟩ : ∃ saved, .start c saved ∈ steps.flatten ∧ saved.Saved ∧
        saved.main.hostname = (opts c).main.hostname ∧
          bindValuesToGetFileId saved.metaData = bindValuesToGetFileId file.metaData := by
      rcases hdone with hsaved | hexcludes | hentered
      · exact ⟨file, hstart, hsaved, hhost, rfl⟩
      · exact absurd (hexcludes.symm.trans (hexcluded.trans hexclude)) Bool.noConfusion
      · obtain ⟨saved, hstart', hsaved, hversion⟩ := hclient.entered _ hentered
        obtain ⟨_, _, hof'⟩ := hclient.pushed saved hstart'
        exact ⟨saved, hstart', hsaved, (hfileOf hof').1, hversion⟩
    obtain ⟨-, hname', htype', -⟩ := bindValuesToGetFileId_inj hsame
    obtain ⟨smeta, hsmeta, hrecord⟩ := hbooks.drained hfinished.drained hstart' hsaved (hwritable c saved hstart' hsaved)
    exact ⟨saved, hstart', smeta, hsmeta, hrecord, hhost' ▸ recordsEntry_of_recordOf hrecord (hname'.trans hname) (htype' ▸ htype)⟩
  · intro smeta hsmeta
    obtain ⟨⟨c, file⟩, hfile, hsaved, hrecord⟩ := hbooks.server.records smeta hsmeta
    obtain ⟨trace, hclient⟩ := hclients c
    obtain ⟨event, hevent, hof⟩ := hclient.pushed file hfile
    obtain ⟨hhost, hname, htype, hexcluded⟩ := hfileOf hof
    obtain ⟨directory, hdirectory, hbelow⟩ := (pushed_iff (hfinite c) (hnamed c) hclient.run (hfinished.carved c) event.entry).mp
      ⟨event, hevent, rfl⟩
    exact ⟨c, directory, hdirectory, event.entry, hbelow, hexcluded ▸ hsaved.1,
      hhost ▸ recordsEntry_of_recordOf hrecord hname htype⟩

/-! ## A directory in a directory -/

/-- The client of this run. -/
def homeHost : Host := ⟨homeFiles, [], fun _ => false⟩

theorem unread_blocks : ∀ block ∈ ([] : List Bytes), 0 < block.length ∧ block.length < 2 ^ 63 := fun _ h => absurd h List.not_mem_nil

/-- A directory is not read. -/
def unread : FileSource := ⟨false, [], none, unread_blocks⟩

/-- The directory, as the client looks it up. -/
def docsFile : FileToSave :=
  lookedUp (fun _ => false) homeOptions FilesTable.created (newFileEvent (CString.lit "/home") docsInfo) unread

/-- The steps of its system: the record is posted, and the directory is entered in the cache and in the queue. -/
def docsOps : List (SystemOp Unit) := [.start () docsFile, .serve (), .deliver () true, .enter (), .enter (), .metaDataThread]

/-- The steps of the run: the listed directory is carved before the saving begins, and the directory in it at the end. -/
def docsSteps : List (List (SystemOp Unit)) :=
  [[], [], [], [.start () docsFile], [.serve ()], [.deliver () true], [.enter ()], [.enter ()], [], [], [.metaDataThread]]

namespace BackupAux

/-- The system after a step, which is possible. -/
def afterOp (s : System Unit) (op : SystemOp Unit) : System Unit := (nextSystem defaultBackend zeroDigest storingZlib s op).getD s

/-- The system after some of the steps. -/
def docsSystem (n : Nat) : System Unit := (docsOps.take n).foldl afterOp System.initial

/-- What the saving thread does next. -/
inductive NextOp where
  | enterCache
  | push (directory : Option CString)
  | done
  | other
deriving DecidableEq

def nextOp : ClientProg Unit → NextOp
  | .call (.dbSaveMetaData _ _) _ => .enterCache
  | .call (.dirQueuePush directory) _ => .push directory
  | .ret () => .done
  | _ => .other

theorem eq_of_enterCache {p : ClientProg Unit} (h : nextOp p = .enterCache) :
    ∃ metaData onlyMeta k, p = .call (.dbSaveMetaData metaData onlyMeta) k := by
  unfold nextOp at h
  split at h
  · exact ⟨_, _, _, rfl⟩
  all_goals cases h

theorem eq_of_push {p : ClientProg Unit} {directory : Option CString} (h : nextOp p = .push directory) :
    ∃ k, p = .call (.dirQueuePush directory) k := by
  unfold nextOp at h
  split at h
  · cases h
  · obtain rfl := NextOp.push.inj h
    exact ⟨_, rfl⟩
  all_goals cases h

theorem eq_of_done {p : ClientProg Unit} (h : nextOp p = .done) : p = .ret () := by
  unfold nextOp at h
  split at h
  · cases h
  · cases h
  · rfl
  · cases h

theorem nextSystem_afterOp {s : System Unit} {op : SystemOp Unit}
    (h : (nextSystem defaultBackend zeroDigest storingZlib s op).isSome = true) :
    nextSystem defaultBackend zeroDigest storingZlib s op = some (afterOp s op) := by
  obtain ⟨s', hs'⟩ := Option.isSome_iff_exists.mp h
  rw [afterOp, hs', Option.getD_some]

/-- Every step is possible, and at the end nothing is left. -/
theorem docsSystem_runs :
    ((nextSystem defaultBackend zeroDigest storingZlib (docsSystem 0) (.start () docsFile)).isSome = true ∧
      (nextSystem defaultBackend zeroDigest storingZlib (docsSystem 1) (.serve ())).isSome = true ∧
      (nextSystem defaultBackend zeroDigest storingZlib (docsSystem 2) (.deliver () true)).isSome = true ∧
      (nextSystem defaultBackend zeroDigest storingZlib (docsSystem 3) (.enter ())).isSome = true ∧
      (nextSystem defaultBackend zeroDigest storingZlib (docsSystem 4) (.enter ())).isSome = true ∧
      (nextSystem defaultBackend zeroDigest storingZlib (docsSystem 5) .metaDataThread).isSome = true) ∧
    nextOp ((docsSystem 3).clients ()).thread = .enterCache ∧
      nextOp ((docsSystem 4).clients ()).thread = .push (some (gBuildPath (CString.lit "/home") (CString.lit "docs"))) ∧
        nextOp ((docsSystem 6).clients ()).thread = .done ∧ (docsSystem 6).metaQueue = [] ∧ (docsSystem 6).dataQueue = [] ∧
          buffersToTransmit ((docsSystem 6).clients ()).buffers.database = [] := by
  decide +kernel

/-- The run, to its end. -/
theorem docsSteps_finished : ∃ s, Traces (BackupStep (fun _ => homeHost) defaultBackend zeroDigest storingZlib)
    (Backup.started (fun _ => homeOptions) fun _ => [CString.lit "/home"]) docsSteps s ∧ s.Finished := by
  have hhome : gFileEnumerateChildren homeFiles [] (CString.lit "/home") = some [str "home"] := by decide +kernel
  have hdocs : gFileEnumerateChildren homeFiles [] (gBuildPath (CString.lit "/home") (CString.lit "docs")) =
      some [str "home", str "docs"] := by decide +kernel
  have hcarveHome : CarveOneDirectory homeFiles [] (CString.lit "/home") (some (CString.lit "/home", [docsInfo])) := by
    unfold CarveOneDirectory
    rw [hhome]
    exact ⟨_, lists_home, rfl⟩
  have hcarveDocs : CarveOneDirectory homeFiles [] (gBuildPath (CString.lit "/home") (CString.lit "docs"))
      (some (gBuildPath (CString.lit "/home") (CString.lit "docs"), [])) := by
    unfold CarveOneDirectory
    rw [hdocs]
    exact ⟨_, lists_docs, rfl⟩
  obtain ⟨⟨hstart, hserve, hdeliver, henter, henter', hmetaData⟩, hcache, hpush, hdone, hmeta, hdata, hrows⟩ := docsSystem_runs
  obtain ⟨metaData, onlyMeta, k, hk⟩ := eq_of_enterCache hcache
  obtain ⟨k', hk'⟩ := eq_of_push hpush
  refine ⟨_, .cons (.carve (c := ()) (.carveListed rfl rfl hcarveHome) rfl) (.cons (.carve (c := ()) (.nextFile rfl) rfl)
    (.cons (.carve (c := ()) (.close rfl) rfl)
      (.cons (.popEvent (c := ()) unread rfl (nextSystem_afterOp hstart))
        (.cons (.elsewhere trivial (nextSystem_afterOp hserve)) (.cons (.elsewhere trivial (nextSystem_afterOp hdeliver))
          (.cons (.enter 0 hk (nextSystem_afterOp henter)) (.cons (.enter 0 hk' (nextSystem_afterOp henter'))
            (.cons (.carve (c := ()) (.carveQueued rfl rfl rfl hcarveDocs) rfl) (.cons (.carve (c := ()) (.close rfl) rfl)
              (.cons (.elsewhere trivial (nextSystem_afterOp hmetaData)) (.nil _))))))))))), ?_⟩
  have hthread : ((docsSystem 6).clients ()).thread = .ret () := eq_of_done hdone
  refine ⟨fun _ => ⟨rfl, rfl, rfl, rfl, ?_⟩, hmeta, hdata, fun _ => ⟨hthread, hrows⟩⟩
  exact congrArg savingOf hthread

end BackupAux

/-- In the end there is a record of the directory, and nothing else. -/
theorem backup_coversHome : ∃ s, Traces (BackupStep (fun _ => homeHost) defaultBackend zeroDigest storingZlib)
      (Backup.started (fun _ => homeOptions) fun _ => [CString.lit "/home"]) docsSteps s ∧
    (∀ _ : Unit, ∀ directory ∈ [CString.lit "/home"], ∀ e,
      IsBelow homeHost.fs homeHost.currentDir homeHost.exclude directory e →
        homeHost.exclude (gBuildPath e.directory e.name) = false →
          ∃ file, .start () file ∈ docsSteps.flatten ∧ ∃ smeta ∈ s.system.records, RecordOf zeroDigest file smeta ∧
            RecordsEntry homeOptions.main.hostname smeta e) ∧
    ∀ smeta ∈ s.system.records, ∃ _ : Unit, ∃ directory ∈ [CString.lit "/home"], ∃ e,
      IsBelow homeHost.fs homeHost.currentDir homeHost.exclude directory e ∧
        homeHost.exclude (gBuildPath e.directory e.name) = false ∧ RecordsEntry homeOptions.main.hostname smeta e := by
  obtain ⟨s, hrun, hfinished⟩ := docsSteps_finished
  refine ⟨s, hrun, backup_coversTrees (fun _ => homeHost) defaultBackend zeroDigest storingZlib_writes (fun _ => homeOptions)
    (fun _ => [CString.lit "/home"]) (fun _ => finite_homeFiles) (fun _ => wellNamed_homeFiles) hrun hfinished ?_⟩
  intro c file hstart _
  obtain rfl : file = docsFile := by simpa [docsSteps] using hstart
  exact Option.isSome_iff_ne_none.mp (by decide +kernel)

end Sauvegarde
