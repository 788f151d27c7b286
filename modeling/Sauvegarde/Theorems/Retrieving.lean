import Sauvegarde.Server.BlockThreads
import Sauvegarde.Theorems.BlockStore

/-!
# A block that is retrieved while it is stored

The data, the type of compression and the uncompressed length that `file_retrieve_data` gives back are read one after the other.
They belong to one store operation when no store that changes the files of the block comes between them.
-/

namespace Sauvegarde

/-- Every retrieval that gives a block gives what one store operation for its hash was given. -/
def FromOneStore (trace : List BlockEvent) : Prop :=
  ∀ h answer, .retrieved h (some answer) ∈ trace →
    ∃ hd, .stores hd ∈ trace ∧ hd.hash = some h.bytes ∧
      answer.data = hd.data ∧ answer.cmptype = hd.cmptype ∧ answer.uncmplen = hd.uncmplen

/-- The files of a block are as storing it leaves them. -/
def ShowsBlock (backend : FileBackend) (files : Files) (hd : HashData) : Prop := fileStoreData backend files hd = files

/-- A thread retrieves the block of a hash. -/
def BlockThreads.Retrieves (s : BlockThreads) (h : Hash) : Prop := ∃ thread r, s.retrieving thread = some r ∧ r.hash = h

/-- A store that changes the files of a block does not overlap a retrieval of it: it begins when no thread retrieves the block,
and no thread begins to before it has ended. -/
def Apart (backend : FileBackend) (s : BlockThreads) : BlockStep → Prop
  | .writeMeta hd =>
    StorableBlock hd ∧ (ShowsBlock backend s.files hd ∨ ∀ h, hd.hash = some h.bytes → ¬ s.Retrieves h)
  | .readCmptype _ h => ∀ hd, s.storing = some hd → hd.hash = some h.bytes → ShowsBlock backend s.files hd
  | _ => True

namespace RetrievingAux

/-- The files of a block show it when its data and its key file are there. -/
theorem showsBlock_iff {backend : FileBackend} {files : Files} {hd : HashData} {h : Hash} {data : Bytes}
    (hhd : hd.IsBlock h data) :
    ShowsBlock backend files hd ↔ files (blockName backend h) = some data ∧
      files (blockName backend h ++ str ".meta") = some (gKeyFileToData (filemetaKeyfile hd.uncmplen hd.cmptype)) := by
  rw [ShowsBlock, fileStoreData_isBlock backend files hhd]
  constructor
  · intro heq
    have hdata := congrFun heq (blockName backend h)
    have hmeta := congrFun heq (blockName backend h ++ str ".meta")
    rw [Function.update_self] at hdata
    rw [Function.update_of_ne (blockName_ne_meta backend h h).symm, Function.update_self] at hmeta
    exact ⟨hdata.symm, hmeta.symm⟩
  · rintro ⟨hdata, hmeta⟩
    rw [← hmeta, Function.update_eq_self, ← hdata, Function.update_eq_self]

/-- The files show a block that was stored last. -/
theorem showsBlock_fileStoreData {backend : FileBackend} (files : Files) {hd : HashData} {h : Hash} {data : Bytes}
    (hhd : hd.IsBlock h data) : ShowsBlock backend (fileStoreData backend files hd) hd := by
  rw [showsBlock_iff hhd, fileStoreData_isBlock backend files hhd, Function.update_self,
    Function.update_of_ne (blockName_ne_meta backend h h).symm, Function.update_self]
  exact ⟨rfl, rfl⟩

/-- A retrieval has read what the files of its block hold now. -/
def Current (backend : FileBackend) (files : Files) : Retrieval → Prop
  | .cmptypeRead h cmptype => cmptype = getCmptypeFromFileMeta files (blockName backend h)
  | .dataRead h cmptype data =>
    cmptype = getCmptypeFromFileMeta files (blockName backend h) ∧ files (blockName backend h) = some data

/-- What holds of the threads along a run, of which the events so far are known. -/
structure Inv (backend : FileBackend) (trace : List BlockEvent) (s : BlockThreads) : Prop where
  settled : ∀ h, (∀ hd, s.storing = some hd → hd.hash ≠ some h.bytes) → hasBlock backend s.files h = true →
    ∃ hd, .stores hd ∈ trace ∧ StorableBlock hd ∧ hd.hash = some h.bytes ∧ ShowsBlock backend s.files hd
  storing : ∀ hd, s.storing = some hd → .stores hd ∈ trace ∧ StorableBlock hd ∧ ∀ h, hd.hash = some h.bytes →
    s.files (blockName backend h ++ str ".meta") = some (gKeyFileToData (filemetaKeyfile hd.uncmplen hd.cmptype))
  shows : ∀ hd h, s.storing = some hd → hd.hash = some h.bytes → s.Retrieves h → ShowsBlock backend s.files hd
  current : ∀ thread r, s.retrieving thread = some r → Current backend s.files r
  answers : FromOneStore trace

/-- Whether the files of a hash are the same before and after a step. -/
def SameFiles (backend : FileBackend) (files files' : Files) (h : Hash) : Prop :=
  files' (blockName backend h) = files (blockName backend h) ∧
    files' (blockName backend h ++ str ".meta") = files (blockName backend h ++ str ".meta")

/-- Files that are the same show the same blocks. -/
theorem SameFiles.showsBlock {backend : FileBackend} {files files' : Files} {hd : HashData} {h : Hash} {data : Bytes}
    (hsame : SameFiles backend files files' h) (hhd : hd.IsBlock h data) (hshows : ShowsBlock backend files hd) :
    ShowsBlock backend files' hd := by
  rw [showsBlock_iff hhd] at hshows ⊢
  exact ⟨hsame.1.trans hshows.1, hsame.2.trans hshows.2⟩

/-- Files that are the same leave a retrieval current. -/
theorem SameFiles.current {backend : FileBackend} {files files' : Files} {r : Retrieval}
    (hsame : SameFiles backend files files' r.hash) (hcurrent : Current backend files r) : Current backend files' r := by
  have hmeta : fileMeta files' (blockName backend r.hash) = fileMeta files (blockName backend r.hash) := by
    rw [fileMeta, hsame.2, fileMeta]
  cases r with
  | cmptypeRead h cmptype =>
    rw [Retrieval.hash] at hmeta
    simpa only [Current, getCmptypeFromFileMeta, hmeta] using hcurrent
  | dataRead h cmptype data =>
    rw [Retrieval.hash] at hmeta
    simp only [Current, getCmptypeFromFileMeta, hmeta] at hcurrent ⊢
    exact ⟨hcurrent.1, hsame.1.trans hcurrent.2⟩

/-- Writing the key file of one block leaves the files of another as they are. -/
theorem sameFiles_keyFile {backend : FileBackend} (files : Files) {g h : Hash} (hne : g ≠ h) (content : Bytes) :
    SameFiles backend files (Function.update files (blockName backend h ++ str ".meta") (some content)) g := by
  have hkey : blockName backend g ++ str ".meta" ≠ blockName backend h ++ str ".meta" :=
    fun heq => hne (blockName_inj (List.append_cancel_right heq))
  exact ⟨Function.update_of_ne (blockName_ne_meta backend g h) _ _, Function.update_of_ne hkey _ _⟩

/-- Writing the data of one block leaves the files of another as they are. -/
theorem sameFiles_data {backend : FileBackend} (files : Files) {g h : Hash} (hne : g ≠ h) (content : Bytes) :
    SameFiles backend files (Function.update files (blockName backend h) (some content)) g := by
  have hname : blockName backend g ≠ blockName backend h := fun heq => hne (blockName_inj heq)
  exact ⟨Function.update_of_ne hname _ _, Function.update_of_ne (blockName_ne_meta backend h g).symm _ _⟩

/-- The answers that were given stay answers of one store operation; one that is added has to be one as well. -/
theorem fromOneStore_append {trace : List BlockEvent} (h : FromOneStore trace) {event : BlockEvent}
    (hevent : ∀ g answer, event = .retrieved g (some answer) → ∃ hd, .stores hd ∈ trace ∧ hd.hash = some g.bytes ∧
      answer.data = hd.data ∧ answer.cmptype = hd.cmptype ∧ answer.uncmplen = hd.uncmplen) :
    FromOneStore (trace ++ [event]) := by
  intro g answer hmem
  rcases List.mem_append.mp hmem with hmem | hmem
  · obtain ⟨stored, hstored, hrest⟩ := h g answer hmem
    exact ⟨stored, List.mem_append_left _ hstored, hrest⟩
  · obtain ⟨stored, hstored, hrest⟩ := hevent g answer (List.mem_singleton.mp hmem).symm
    exact ⟨stored, List.mem_append_left _ hstored, hrest⟩

/-- A block whose files are the same is stored as before. -/
theorem Inv.settled_of_sameFiles {backend : FileBackend} {trace : List BlockEvent} {s : BlockThreads}
    (hinv : Inv backend trace s) {files' : Files} {g : Hash} (hsame : SameFiles backend s.files files' g)
    (hother : ∀ hd, s.storing = some hd → hd.hash ≠ some g.bytes) (hblock : hasBlock backend files' g = true) :
    ∃ hd, .stores hd ∈ trace ∧ StorableBlock hd ∧ hd.hash = some g.bytes ∧ ShowsBlock backend files' hd := by
  have hbefore : hasBlock backend s.files g = true := by
    rw [hasBlock_eq] at hblock ⊢
    rwa [← hsame.1]
  obtain ⟨hd, hmem, hstorable, hhash, hshows⟩ := hinv.settled g hother hbefore
  obtain ⟨h, data, hhd, _⟩ := id hstorable
  have heq : h = g := Hash.ext (Option.some.inj (hhd.hash.symm.trans hhash))
  exact ⟨hd, hmem, hstorable, hhash, hsame.showsBlock (heq ▸ hhd) hshows⟩

/-- The key file of a block is written. -/
theorem Inv.writeMeta {backend : FileBackend} {trace : List BlockEvent} {s : BlockThreads} (hinv : Inv backend trace s)
    (hidle : s.storing = none) {hd : HashData} (hstorable : StorableBlock hd) {h : Hash} {data : Bytes} (hhd : hd.IsBlock h data)
    (hapart : ShowsBlock backend s.files hd ∨ ∀ h, hd.hash = some h.bytes → ¬ s.Retrieves h) :
    Inv backend (trace ++ [.stores hd])
      { s with
        files := Function.update s.files (blockName backend h ++ str ".meta")
          (some (gKeyFileToData (filemetaKeyfile hd.uncmplen hd.cmptype)))
        storing := some hd } := by
  have hsame : ∀ g, g ≠ h ∨ ShowsBlock backend s.files hd → SameFiles backend s.files
      (Function.update s.files (blockName backend h ++ str ".meta")
        (some (gKeyFileToData (filemetaKeyfile hd.uncmplen hd.cmptype)))) g := by
    rintro g (hne | hshows)
    · exact sameFiles_keyFile s.files hne _
    · rw [← ((showsBlock_iff hhd).mp hshows).2, Function.update_eq_self]
      exact ⟨rfl, rfl⟩
  constructor
  · intro g hg hblock
    have hne : g ≠ h := fun heq => hg hd rfl (heq ▸ hhd.hash)
    obtain ⟨hd', hmem, hrest⟩ := hinv.settled_of_sameFiles (hsame g (Or.inl hne)) (by simp [hidle]) hblock
    exact ⟨hd', List.mem_append_left _ hmem, hrest⟩
  · rintro hd' ⟨⟩
    refine ⟨List.mem_append_right _ List.mem_cons_self, hstorable, fun g hg => ?_⟩
    have heq : h = g := Hash.ext (Option.some.inj (hhd.hash.symm.trans hg))
    rw [← heq]
    exact Function.update_self _ _ _
  · rintro hd' g ⟨⟩ hg hretrieves
    have hshows := hapart.resolve_right fun hno => hno g hg hretrieves
    exact (hsame h (Or.inr hshows)).showsBlock hhd hshows
  · intro thread r hr
    refine (hsame r.hash ?_).current (hinv.current thread r hr)
    rcases hapart with hshows | hno
    · exact Or.inr hshows
    · exact Or.inl fun heq => hno h hhd.hash ⟨thread, r, hr, heq⟩
  · exact fromOneStore_append hinv.answers (by simp)

/-- The data of the block are written that the data thread is at. -/
theorem Inv.replaceData {backend : FileBackend} {trace : List BlockEvent} {s : BlockThreads} (hinv : Inv backend trace s)
    {hd : HashData} (hstoring : s.storing = some hd) {h : Hash} {data : Bytes} (hhd : hd.IsBlock h data) :
    Inv backend trace { s with files := Function.update s.files (blockName backend h) (some data), storing := none } := by
  obtain ⟨hmem, hstorable, hmeta⟩ := hinv.storing hd hstoring
  have hsame : ∀ g, g ≠ h ∨ ShowsBlock backend s.files hd →
      SameFiles backend s.files (Function.update s.files (blockName backend h) (some data)) g := by
    rintro g (hne | hshows)
    · exact sameFiles_data s.files hne _
    · rw [← ((showsBlock_iff hhd).mp hshows).1, Function.update_eq_self]
      exact ⟨rfl, rfl⟩
  constructor
  · intro g _ hblock
    by_cases heq : g = h
    · refine ⟨hd, hmem, hstorable, heq ▸ hhd.hash, (showsBlock_iff hhd).mpr ⟨Function.update_self _ _ _, ?_⟩⟩
      exact (Function.update_of_ne (blockName_ne_meta backend h h).symm _ _).trans (hmeta h hhd.hash)
    · have hother : ∀ hd', s.storing = some hd' → hd'.hash ≠ some g.bytes := by
        intro hd' hhd' hg
        rw [hstoring, Option.some.injEq] at hhd'
        subst hhd'
        exact heq (Hash.ext (Option.some.inj (hg.symm.trans hhd.hash)))
      exact hinv.settled_of_sameFiles (hsame g (Or.inl heq)) hother hblock
  · exact fun hd' hnone => absurd hnone.symm (Option.some_ne_none _)
  · exact fun hd' g hnone => absurd hnone.symm (Option.some_ne_none _)
  · intro thread r hr
    refine (hsame r.hash ?_).current (hinv.current thread r hr)
    by_cases heq : r.hash = h
    · exact Or.inr (hinv.shows hd h hstoring hhd.hash ⟨thread, r, hr, heq⟩)
    · exact Or.inl heq
  · exact hinv.answers

/-- A connection thread begins to retrieve a block. -/
theorem Inv.readCmptype {backend : FileBackend} {trace : List BlockEvent} {s : BlockThreads} (hinv : Inv backend trace s)
    (thread : Nat) {h : Hash} (hapart : ∀ hd, s.storing = some hd → hd.hash = some h.bytes → ShowsBlock backend s.files hd) :
    Inv backend trace
      { s with
        retrieving := Function.update s.retrieving thread
          (some (.cmptypeRead h (getCmptypeFromFileMeta s.files (blockName backend h)))) } := by
  have hthreads : ∀ thread' r, Function.update s.retrieving thread
      (some (.cmptypeRead h (getCmptypeFromFileMeta s.files (blockName backend h)))) thread' = some r →
        r = .cmptypeRead h (getCmptypeFromFileMeta s.files (blockName backend h)) ∨ s.retrieving thread' = some r := by
    intro thread' r hr
    by_cases heq : thread' = thread
    · rw [heq, Function.update_self, Option.some.injEq] at hr
      exact Or.inl hr.symm
    · rw [Function.update_of_ne heq] at hr
      exact Or.inr hr
  refine ⟨hinv.settled, hinv.storing, ?_, ?_, hinv.answers⟩
  · rintro hd g hstoring hg ⟨thread', r, hr, rfl⟩
    rcases hthreads thread' r hr with rfl | hr
    · exact hapart hd hstoring hg
    · exact hinv.shows hd r.hash hstoring hg ⟨thread', r, hr, rfl⟩
  · intro thread' r hr
    rcases hthreads thread' r hr with rfl | hr
    · exact rfl
    · exact hinv.current thread' r hr

/-- A connection thread goes on with the block it retrieves, or ends. -/
theorem Inv.goOn {backend : FileBackend} {trace : List BlockEvent} {s : BlockThreads} (hinv : Inv backend trace s) {thread : Nat}
    {r : Retrieval} (hr : s.retrieving thread = some r) {next : Option Retrieval}
    (hnext : ∀ r' ∈ next, r'.hash = r.hash ∧ Current backend s.files r') {events : List BlockEvent}
    (hanswers : FromOneStore (trace ++ events)) :
    Inv backend (trace ++ events) { s with retrieving := Function.update s.retrieving thread next } := by
  have hbefore : ∀ thread' r', Function.update s.retrieving thread next thread' = some r' →
      s.Retrieves r'.hash ∧ Current backend s.files r' := by
    intro thread' r' hr'
    by_cases heq : thread' = thread
    · rw [heq, Function.update_self] at hr'
      obtain ⟨hhash, hcurrent⟩ := hnext r' hr'
      exact ⟨⟨thread, r, hr, hhash.symm⟩, hcurrent⟩
    · rw [Function.update_of_ne heq] at hr'
      exact ⟨⟨thread', r', hr', rfl⟩, hinv.current thread' r' hr'⟩
  constructor
  · intro h hother hblock
    obtain ⟨hd, hmem, hrest⟩ := hinv.settled h hother hblock
    exact ⟨hd, List.mem_append_left _ hmem, hrest⟩
  · intro hd hstoring
    obtain ⟨hmem, hrest⟩ := hinv.storing hd hstoring
    exact ⟨List.mem_append_left _ hmem, hrest⟩
  · rintro hd g hstoring hg ⟨thread', r', hr', rfl⟩
    exact hinv.shows hd r'.hash hstoring hg (hbefore thread' r' hr').1
  · exact fun thread' r' hr' => (hbefore thread' r' hr').2
  · exact hanswers

/-- What a retrieval has read when it comes to its end is what one store operation was given. -/
theorem Inv.answer {backend : FileBackend} {trace : List BlockEvent} {s : BlockThreads} (hinv : Inv backend trace s) {thread : Nat}
    {h : Hash} {cmptype : Int16} {data : Bytes} (hr : s.retrieving thread = some (.dataRead h cmptype data)) :
    ∃ hd, .stores hd ∈ trace ∧ hd.hash = some h.bytes ∧ some data = hd.data ∧ cmptype = hd.cmptype ∧
      getUncmplenFromFileMeta s.files (blockName backend h) = hd.uncmplen := by
  obtain ⟨hcmptype, hdata⟩ := hinv.current thread _ hr
  have hstored : ∃ hd, .stores hd ∈ trace ∧ StorableBlock hd ∧ hd.hash = some h.bytes ∧ ShowsBlock backend s.files hd := by
    by_cases hpending : ∀ hd, s.storing = some hd → hd.hash ≠ some h.bytes
    · exact hinv.settled h hpending (by rw [hasBlock_eq, hdata]; rfl)
    · push Not at hpending
      obtain ⟨hd, hstoring, hhash⟩ := hpending
      obtain ⟨hmem, hstorable, _⟩ := hinv.storing hd hstoring
      exact ⟨hd, hmem, hstorable, hhash, hinv.shows hd h hstoring hhash ⟨thread, _, hr, rfl⟩⟩
  obtain ⟨hd, hmem, ⟨h', data', hhd, hcmp⟩, hhash, hshows⟩ := hstored
  have heq : h' = h := Hash.ext (Option.some.inj (hhd.hash.symm.trans hhash))
  subst heq
  obtain ⟨hshown, hmeta⟩ := (showsBlock_iff hhd).mp hshows
  obtain ⟨hc, hu⟩ := BlockStoreAux.meta_eq hcmp hmeta
  rw [hdata, Option.some.injEq] at hshown
  exact ⟨hd, hmem, hhash, by rw [hshown, hhd.data], hcmptype.trans hc, hu⟩

/-- Every step keeps the invariant. -/
theorem inv_step {backend : FileBackend} (trace : List BlockEvent) (s : BlockThreads) (op : BlockStep) (s' : BlockThreads)
    (events : List BlockEvent) (hinv : Inv backend trace s) (hapart : Apart backend s op)
    (hstep : blockStep backend s op = some (s', events)) : Inv backend (trace ++ events) s' := by
  have hname : ∀ h : Hash, hexBlockFilename backend (hexText h.bytes) = some (blockName backend h) := fun h =>
    (hexBlockFilename_hexText backend h).trans (BlockStoreAux.blockFilename_eq_blockName backend h)
  cases op with
  | writeMeta hd =>
    obtain ⟨hstorable, hapart⟩ := hapart
    obtain ⟨h, data, hhd, _⟩ := id hstorable
    rcases hidle : s.storing with _ | pending
    · simp only [blockStep, hidle, hhd.hash, hhd.data, BlockStoreAux.blockFilename_eq_blockName, setMetadataToFileMeta,
        Option.some.injEq, Prod.mk.injEq] at hstep
      obtain ⟨rfl, rfl⟩ := hstep
      exact hinv.writeMeta hidle hstorable hhd hapart
    · simp [blockStep, hidle] at hstep
  | replaceData =>
    rcases hstoring : s.storing with _ | hd
    · simp [blockStep, hstoring] at hstep
    · obtain ⟨h, data, hhd, _⟩ := (hinv.storing hd hstoring).2.1
      simp only [blockStep, hstoring, Option.bind_some, hhd.hash, hhd.data, BlockStoreAux.blockFilename_eq_blockName,
        (length_int64 hhd.read).2.1, List.take_length, Option.some.injEq, Prod.mk.injEq] at hstep
      obtain ⟨rfl, rfl⟩ := hstep
      rw [List.append_nil]
      exact hinv.replaceData hstoring hhd
  | readCmptype thread h =>
    rcases hidle : s.retrieving thread with _ | r
    · simp only [blockStep, hidle, hname, Option.some.injEq, Prod.mk.injEq] at hstep
      obtain ⟨rfl, rfl⟩ := hstep
      rw [List.append_nil]
      exact hinv.readCmptype thread hapart
    · simp [blockStep, hidle] at hstep
  | readData thread =>
    rcases hr : s.retrieving thread with _ | (⟨h, cmptype⟩ | ⟨h, cmptype, data⟩)
    · simp [blockStep, hr] at hstep
    · have hcurrent := hinv.current thread _ hr
      rcases hdata : s.files (blockName backend h) with _ | data
      · simp only [blockStep, hr, hname, Option.bind_some, hdata, Option.some.injEq, Prod.mk.injEq] at hstep
        obtain ⟨rfl, rfl⟩ := hstep
        exact hinv.goOn hr (by simp) (fromOneStore_append hinv.answers (by simp))
      · simp only [blockStep, hr, hname, Option.bind_some, hdata, Option.some.injEq, Prod.mk.injEq] at hstep
        obtain ⟨rfl, rfl⟩ := hstep
        refine hinv.goOn hr ?_ (by simpa using hinv.answers)
        rintro r' ⟨⟩
        exact ⟨rfl, hcurrent, hdata⟩
    · simp [blockStep, hr] at hstep
  | readUncmplen thread =>
    rcases hr : s.retrieving thread with _ | (⟨h, cmptype⟩ | ⟨h, cmptype, data⟩)
    · simp [blockStep, hr] at hstep
    · simp [blockStep, hr] at hstep
    · simp only [blockStep, hr, hname, Option.map_some, Option.some.injEq, Prod.mk.injEq] at hstep
      obtain ⟨rfl, rfl⟩ := hstep
      refine hinv.goOn hr (by simp) (fromOneStore_append hinv.answers fun g answer hevent => ?_)
      obtain ⟨rfl, hanswer⟩ := BlockEvent.retrieved.inj hevent
      obtain rfl := Option.some.inj hanswer
      exact hinv.answer hr

/-- Before the first step nothing is stored or retrieved. -/
theorem inv_noBlocks (backend : FileBackend) : Inv backend [] noBlocks where
  settled := fun h _ hblock => by simp [hasBlock_eq, noBlocks] at hblock
  storing := fun hd hstoring => absurd hstoring.symm (Option.some_ne_none _)
  shows := fun hd h hstoring => absurd hstoring.symm (Option.some_ne_none _)
  current := fun thread r hr => absurd hr.symm (Option.some_ne_none _)
  answers := fun h answer hmem => absurd hmem List.not_mem_nil

end RetrievingAux

/-- In every run in which no store that changes the files of a block overlaps a retrieval of it, every retrieval that gives a
block gives what one store operation was given. -/
theorem retrieved_fromOneStore {backend : FileBackend} {ops : List BlockStep} {trace : List BlockEvent} {t : BlockThreads}
    (hapart : Runs.Along (blockStep backend) (Apart backend) noBlocks ops)
    (hrun : Runs.execute (blockStep backend) noBlocks ops = some (t, trace)) : FromOneStore trace := by
  have hinv := Runs.execute_invariant RetrievingAux.inv_step ops (RetrievingAux.inv_noBlocks backend) hapart hrun
  exact hinv.answers

/-- The block is stored, and stored again as it is while it is retrieved. -/
def storeAgainWhileRetrieving : List BlockStep :=
  [.writeMeta plainBlock, .replaceData] ++
    [.readCmptype 0 sevens, .writeMeta plainBlock, .readData 0, .replaceData, .readUncmplen 0]

/-- The block is compressed and stored again while it is retrieved. -/
def storeWhileRetrieving : List BlockStep :=
  [.writeMeta plainBlock, .replaceData, .readCmptype 0 sevens, .writeMeta zlibBlock, .replaceData, .readData 0, .readUncmplen 0]

/-- The data of one block with the type of compression of the other. -/
def mixedBlock : HashData := newHashDataAsIs (some [120, 218, 0]) 3 (some sevens.bytes) COMPRESS_NONE_TYPE 4

set_option maxRecDepth 20000 in
/-- The second store changes nothing, and the retrieval gives the block. -/
theorem storeAgainWhileRetrieving_fromOneStore :
    FromOneStore [.stores plainBlock, .stores plainBlock, .retrieved sevens (some plainBlock)] := by
  have hrun : (Runs.execute (blockStep deepBackend) noBlocks storeAgainWhileRetrieving).map (fun r => r.2) =
      some [.stores plainBlock, .stores plainBlock, .retrieved sevens (some plainBlock)] := rfl
  obtain ⟨⟨t, trace⟩, hexecute, rfl⟩ := Option.map_eq_some_iff.mp hrun
  obtain ⟨h, data, hblock, -⟩ := id storable_blocks.1
  have hstored := @execute_store deepBackend noBlocks rfl _ _ _ hblock
  have hapart : Runs.Along (blockStep deepBackend) (Apart deepBackend) noBlocks storeAgainWhileRetrieving := by
    refine Runs.along_append ⟨⟨storable_blocks.1, Or.inr fun h _ hretrieves => ?_⟩, fun _ _ _ => ⟨trivial, fun _ _ _ => trivial⟩⟩
      hstored ⟨fun hd hstoring => ?_, fun s' events hstep => ?_⟩
    · obtain ⟨thread, r, hr, _⟩ := hretrieves
      exact absurd hr.symm (Option.some_ne_none _)
    · exact absurd hstoring.symm (Option.some_ne_none _)
    · -- what was stored is not changed by storing it again
      obtain ⟨rfl, -⟩ := Prod.mk.inj (Option.some.inj hstep)
      exact ⟨⟨storable_blocks.1, Or.inl (RetrievingAux.showsBlock_fileStoreData _ hblock)⟩,
        fun _ _ _ => ⟨trivial, fun _ _ _ => ⟨trivial, fun _ _ _ => ⟨trivial, fun _ _ _ => trivial⟩⟩⟩⟩
  exact retrieved_fromOneStore hapart hexecute

set_option maxRecDepth 20000 in
/-- The retrieval gives the data of one store operation and the type of compression of the other. -/
theorem storeWhileRetrieving_mixes :
    (∀ hd, .writeMeta hd ∈ storeWhileRetrieving → StorableBlock hd) ∧
      ∃ t trace, Runs.execute (blockStep deepBackend) noBlocks storeWhileRetrieving = some (t, trace) ∧
        ¬ FromOneStore trace := by
  have hrun : (Runs.execute (blockStep deepBackend) noBlocks storeWhileRetrieving).map (fun r => r.2) =
      some [.stores plainBlock, .stores zlibBlock, .retrieved sevens (some mixedBlock)] := rfl
  obtain ⟨⟨t, trace⟩, hexecute, rfl⟩ := Option.map_eq_some_iff.mp hrun
  refine ⟨fun hd hmem => ?_, t, _, hexecute, fun hone => ?_⟩
  · simp only [storeWhileRetrieving, List.mem_cons, BlockStep.writeMeta.injEq, reduceCtorEq, List.not_mem_nil, or_false,
      false_or] at hmem
    rcases hmem with rfl | rfl
    · exact storable_blocks.1
    · exact storable_blocks.2
  · obtain ⟨hd, hmem, _, hdata, hcmptype, _⟩ := hone sevens mixedBlock (by simp)
    simp only [List.mem_cons, BlockEvent.stores.injEq, reduceCtorEq, List.not_mem_nil, or_false] at hmem
    rcases hmem with rfl | rfl
    · exact absurd hdata (by decide)
    · exact absurd hcmptype (by decide)

end Sauvegarde
