import Sauvegarde.Theorems.Sending
import Sauvegarde.Theorems.Sharing

/-!
# Deduplication is safe

The server answers that a block is not needed from what is stored at that moment, while other blocks are queued, under way or kept.
Over every run of any number of clients: no record has a hash whose block is nowhere.
-/

namespace Sauvegarde

namespace SharingAux

open BuffersAux

section

variable {C : Type} {backend : FileBackend} [DecidableEq C]

/-! ## What one client does to the others -/

/-- What a step of one client does to the rest of the system: it may push, and leave requests that arrive late. `new` are the
records it brings. -/
structure Moves (backend : FileBackend) (s s' : System C) (c : C) (client : Client) (new : Set ServerMetaData) : Prop where
  clients : s'.clients = Function.update s.clients c client
  files : s'.files = s.files
  records : s'.records = s.records
  dataQueue : ∀ hd ∈ s.dataQueue, hd ∈ s'.dataQueue
  metaQueue : ∀ smeta ∈ s'.metaQueue, smeta ∈ s.metaQueue ∨ smeta ∈ new
  late : ∀ request ∈ s'.late, request ∈ s.late ∨ ∀ smeta ∈ recordsOf request.1 request.2, smeta ∈ new
  gone : ∀ row ∈ (s.clients c).buffers.database.buffers,
    row ∈ client.buffers.database.buffers ∨ ∀ h ∈ blocksOf row.url row.data, Landed backend s' h
  kept : ∀ row ∈ client.buffers.database.buffers,
    row ∈ (s.clients c).buffers.database.buffers ∨ ∀ smeta ∈ recordsOf row.url row.data, smeta ∈ new

/-- The rows of the clients after a step of one of them. -/
theorem Moves.clients_cases {s s' : System C} {c : C} {client : Client} {new : Set ServerMetaData}
    (h : Moves backend s s' c client new) (c' : C) : s'.clients c' = s.clients c' ∨ (c' = c ∧ s'.clients c' = client) := by
  rw [h.clients]
  by_cases hc : c' = c
  · subst hc
    exact Or.inr ⟨rfl, Function.update_self _ _ _⟩
  · exact Or.inl (Function.update_of_ne hc _ _)

/-- A step of a client loses no block. -/
theorem Moves.grows {s s' : System C} {c : C} {client : Client} {new : Set ServerMetaData}
    (h : Moves backend s s' c client new) : Grows backend s s' := by
  have hfiles : ∀ g, hasBlock backend s.files g = true → hasBlock backend s'.files g = true := fun g hg => h.files ▸ hg
  have hlanded : ∀ g, Landed backend s g → Landed backend s' g := by
    rintro g (hg | ⟨hd, hhd, hblock⟩)
    · exact Or.inl (hfiles g hg)
    · exact Or.inr ⟨hd, h.dataQueue hd hhd, hblock⟩
  refine ⟨hfiles, hlanded, ?_⟩
  rintro g (hg | ⟨c', row, hrow, hg⟩)
  · exact Or.inl (hlanded g hg)
  · rcases h.clients_cases c' with hc | ⟨rfl, hc⟩
    · exact Or.inr ⟨c', row, hc ▸ hrow, hg⟩
    · rcases h.gone row hrow with hrow | hblocks
      · exact Or.inr ⟨c', row, hc ▸ hrow, hg⟩
      · exact Or.inl (hblocks g hg)

/-- A record that was sent after a step of a client was sent before, or is one that the step brings. -/
theorem Moves.sent {s s' : System C} {c : C} {client : Client} {new : Set ServerMetaData}
    (h : Moves backend s s' c client new) {smeta : ServerMetaData} (hsent : Sent s' smeta) : Sent s smeta ∨ smeta ∈ new := by
  rcases hsent with hmem | hmem | ⟨request, hmem, hrecord⟩ | ⟨c', row, hrow, hrecord⟩
  · exact Or.inl (Or.inl (h.records ▸ hmem))
  · exact (h.metaQueue smeta hmem).imp_left fun hmem => Or.inr (Or.inl hmem)
  · rcases h.late request hmem with hmem | hnew
    · exact Or.inl (Or.inr (Or.inr (Or.inl ⟨request, hmem, hrecord⟩)))
    · exact Or.inr (hnew smeta hrecord)
  · rcases h.clients_cases c' with hc | ⟨rfl, hc⟩
    · exact Or.inl (Or.inr (Or.inr (Or.inr ⟨c', row, hc ▸ hrow, hrecord⟩)))
    · rcases h.kept row (hc ▸ hrow) with hrow | hnew
      · exact Or.inl (Or.inr (Or.inr (Or.inr ⟨c', row, hrow, hrecord⟩)))
      · exact Or.inr (hnew smeta hrecord)

/-- A client changes, and keeps its requests. -/
theorem moves_setClient {s : System C} {c : C} {client : Client}
    (hdatabase : client.buffers.database = (s.clients c).buffers.database) : Moves backend s (s.setClient c client) c client ∅ :=
  ⟨rfl, rfl, rfl, fun _ hhd => hhd, fun _ => Or.inl, fun _ => Or.inl, fun _ hrow => Or.inl (hdatabase ▸ hrow),
    fun _ hrow => Or.inl (hdatabase ▸ hrow)⟩

/-- The server processes a request while a client changes, and keeps its requests. -/
theorem moves_push {s : System C} {c : C} {client : Client} (url : String) (body : Json)
    (hdatabase : client.buffers.database = (s.clients c).buffers.database) :
    Moves backend s ((s.push (processReceivedData (some backend) s.files url body)).setClient c client) c client
      (recordsOf url body) where
  clients := rfl
  files := rfl
  records := rfl
  dataQueue := fun _ hhd => List.mem_append_left _ hhd
  metaQueue := fun _ hsmeta => (List.mem_append.mp hsmeta).imp_right fun hnew => mem_recordsOf.mpr hnew
  late := fun _ => Or.inl
  gone := fun _ hrow => Or.inl (hdatabase ▸ hrow)
  kept := fun _ hrow => Or.inl (hdatabase ▸ hrow)

/-- A post of a client fails, or none, while it changes and keeps no more requests than before. -/
theorem moves_failed {s : System C} {c : C} {client : Client} (processed : Bool) (request : Option (String × Json))
    (hgone : ∀ row ∈ (s.clients c).buffers.database.buffers,
      row ∈ client.buffers.database.buffers ∨ ∀ h ∈ blocksOf row.url row.data, Landed backend s h)
    (hkept : ∀ row ∈ client.buffers.database.buffers, row ∈ (s.clients c).buffers.database.buffers) :
    Moves backend s ((s.failed processed request).setClient c client) c client
      {smeta | ∃ url body, request = some (url, body) ∧ smeta ∈ recordsOf url body} := by
  unfold System.failed
  cases processed with
  | true =>
    exact ⟨rfl, rfl, rfl, fun _ hhd => hhd, fun _ => Or.inl, fun _ => Or.inl, hgone, fun row hrow => Or.inl (hkept row hrow)⟩
  | false =>
    refine ⟨rfl, rfl, rfl, fun _ hhd => hhd, fun _ => Or.inl, fun late hlate => ?_, hgone, fun row hrow => Or.inl (hkept row hrow)⟩
    refine (List.mem_append.mp hlate).imp_right fun hlast smeta hsmeta => ?_
    exact ⟨late.1, late.2, Option.mem_toList.mp hlast, hsmeta⟩

/-- A step of one client: the others stay as they are, what it owed it still owes, and a record that is new is its own. -/
theorem SystemInv.step {s s' : System C} {history : C → List ClientEvent} {trace : C → List (BufferEvent Json)} {c : C}
    {client : Client} {new : Set ServerMetaData} {history' : List ClientEvent} {trace' : List (BufferEvent Json)}
    (h : SystemInv backend s history trace) (hmoves : Moves backend s s' c client new)
    (hclient : ClientInv backend s' client history' trace')
    (howes : ∀ g, Owes (s.clients c) (history c) g → Owes client history' g)
    (hnew : ∀ smeta ∈ new, Sent s smeta ∨ ∀ g ∈ smeta.hashs, Owes client history' g) :
    ∃ history trace, SystemInv backend s' history trace := by
  have hclients := hmoves.clients
  have hgrows := hmoves.grows
  refine ⟨Function.update history c history', Function.update trace c trace', ?_, ?_⟩
  · intro c'
    rw [hclients]
    by_cases hc : c' = c
    · subst hc
      simpa using hclient
    · simpa [hc] using (h.client c').mono hgrows
  · have hself : ∀ g, Owes client history' g → ∃ c', Owes (s'.clients c') (Function.update history c history' c') g := by
      intro g hg
      refine ⟨c, ?_⟩
      rw [hclients]
      simpa using hg
    intro smeta hsmeta g hg
    have hcases : Sent s smeta ∨ ∀ g ∈ smeta.hashs, Owes client history' g := by
      rcases hmoves.sent hsmeta with hsmeta | hsmeta
      · exact Or.inl hsmeta
      · exact hnew smeta hsmeta
    rcases hcases with hsmeta | hown
    · rcases h.sent smeta hsmeta g hg with hg | ⟨c', hg⟩
      · exact Or.inl (hgrows.secured g hg)
      · by_cases hc : c' = c
        · subst hc
          exact Or.inr (hself g (howes g hg))
        · refine Or.inr ⟨c', ?_⟩
          rw [hclients]
          simpa [hc] using hg
    · exact Or.inr (hself g (hown g hg))

/-! ## The first thread -/

/-- A client begins with a file. -/
theorem SystemInv.start {s s' : System C} {history : C → List ClientEvent} {trace : C → List (BufferEvent Json)}
    {sha256 : Bytes → Hash} {z : Zlib} {c : C} {file : FileToSave} (h : SystemInv backend s history trace) (hz : z.Writes)
    (hcounter : file.excluded = false → file.metaData.inCache = false → file.CounterFits sha256 z)
    (hstep : start sha256 z s c file = some s') : ∃ history trace, SystemInv backend s' history trace := by
  unfold Sauvegarde.start at hstep
  split at hstep
  · rename_i hthread
    obtain rfl := Option.some.inj hstep
    have hclient := h.client c
    have hchecked := hclient.checked
    rw [hthread] at hchecked
    have hserved : (s.clients c).served = none := hclient.served_none fun _ _ _ _ hcall =>
      absurd (hthread.symm.trans hcall) (by simp)
    have hmoves := @moves_setClient C backend _ s c { s.clients c with thread := saveOneFile sha256 z file } rfl
    refine h.step hmoves (?_ : ClientInv backend _ _ (history c) (trace c)) ?_ fun smeta hsmeta =>
      absurd hsmeta (Set.notMem_empty smeta)
    · refine { hclient.mono hmoves.grows with checked := ?_, served := fun answer hanswer => absurd (hserved.symm.trans hanswer) (by simp) }
      exact Prog.wp_mono (CachedAux.wp_saveOneFile hz hcounter hchecked fun _ _ _ => trivial) fun _ _ hpost => hpost.1
    · rintro g (hg | ⟨op, k, hcall, _⟩)
      · exact Or.inl hg
      · exact absurd (hthread.symm.trans hcall) (by simp)
  · cases hstep

/-- The server processes the post of a client. -/
theorem SystemInv.serve {s s' : System C} {history : C → List ClientEvent} {trace : C → List (BufferEvent Json)} {c : C}
    (h : SystemInv backend s history trace) (hstep : serve backend s c = some s') :
    ∃ history trace, SystemInv backend s' history trace := by
  unfold Sauvegarde.serve at hstep
  dsimp only at hstep
  split at hstep
  · rename_i url body held k hthread hserved
    obtain rfl := Option.some.inj hstep
    have hmoves := @moves_push C backend _ s c
      { s.clients c with served := (processReceivedData (some backend) s.files url body).answer } url body rfl
    refine h.step hmoves (?_ : ClientInv backend _ _ (history c) (trace c)) (fun _ hg => hg) fun smeta hsmeta => ?_
    · refine { (h.client c).mono hmoves.grows with served := fun answer hanswer => ?_ }
      exact ⟨url, body, held, k, hthread, landed_of_pushed rfl, s.files, fun _ hg => hg, hanswer⟩
    · exact Or.inr fun g hg => Or.inr ⟨_, k, hthread, smeta, ⟨url, body, rfl, hsmeta⟩, hg⟩
  · cases hstep

/-- A post of a client returns. -/
theorem SystemInv.deliver {s s' : System C} {history : C → List ClientEvent} {trace : C → List (BufferEvent Json)} {c : C}
    {success : Bool} (h : SystemInv backend s history trace) (hstep : deliver s c success = some s') :
    ∃ history trace, SystemInv backend s' history trace := by
  have hclient := h.client c
  unfold Sauvegarde.deliver at hstep
  dsimp only at hstep
  split at hstep
  · rename_i url readbuffer held k hthread
    split at hstep
    · -- the answer that the server gave when it processed the request
      obtain ⟨answer, hanswer, rfl⟩ := Option.map_eq_some_iff.mp hstep
      obtain ⟨url', body, held', k', hcall, hblocks, files, hfiles, hprocessed⟩ := hclient.served answer hanswer
      obtain ⟨hop, _⟩ := Prog.call.inj (hthread.symm.trans hcall)
      obtain ⟨rfl, rfl, rfl⟩ := ClientOp.postUrl.inj hop
      have hmoves := @moves_setClient C backend _ s c { s.clients c with thread := k (some answer), served := none } rfl
      have hasked : AllHashed (askedHashs url body) := by
        have hchecked := hclient.checked
        rw [hthread] at hchecked
        exact hchecked.1.asked url body rfl
      refine h.step hmoves (hclient.returned (.postUrl url (some body) held) (some answer : Option Json) hmoves.grows hthread ?_ ?_ hclient.kept
        (fun _ => id) fun _ rows hrows => ⟨rows, hrows⟩) (fun g hg => hg.returned _ hthread)
        fun smeta hsmeta => absurd hsmeta (Set.notMem_empty smeta)
      · rintro text htext
        obtain rfl := Option.some.inj htext
        exact ⟨body, rfl, files, hprocessed⟩
      · rintro g ⟨url', body', hrequest, hg⟩
        obtain ⟨rfl, rfl⟩ := Prod.mk.inj (Option.some.inj hrequest)
        rcases hg with ⟨_, hg⟩ | ⟨text, htext, hg⟩
        · exact Or.inl (hmoves.grows.landed g (hblocks g hg))
        · obtain rfl := Option.some.inj htext
          exact Or.inl (Or.inl (hfiles g (exists_of_not_listed hasked hprocessed hg.1 hg.2)))
    · -- nothing is accounted for, and the request may arrive later
      obtain rfl := Option.some.inj hstep
      have hmoves := @moves_failed C backend _ s c { s.clients c with thread := k none, served := none }
        (s.clients c).served.isSome (readbuffer.map fun body => (url, body)) (fun _ => Or.inl) (fun _ => id)
      refine h.step hmoves (hclient.returned (.postUrl url readbuffer held) (none : Option Json) hmoves.grows hthread ?_ ?_ hclient.kept
        (fun _ => id) fun _ rows hrows => ⟨rows, hrows⟩) (fun g hg => hg.returned _ hthread) ?_
      · exact fun text htext => absurd htext.symm (Option.some_ne_none _)
      · rintro g ⟨_, _, _, ⟨⟨text, htext⟩, _⟩ | ⟨text, htext, _⟩⟩
        · exact absurd htext.symm (Option.some_ne_none _)
        · exact absurd htext.symm (Option.some_ne_none _)
      · rintro smeta hsmeta
        exact Or.inr fun g hg => Owes.returned _ hthread (Or.inr ⟨_, k, hthread, smeta, hsmeta, hg⟩)
  · cases hstep

/-- A request is kept. -/
theorem SystemInv.keep {s s' : System C} {history : C → List ClientEvent} {trace : C → List (BufferEvent Json)} {c : C}
    {seen : Bool} (h : SystemInv backend s history trace) (hstep : keep s c seen = some s') :
    ∃ history trace, SystemInv backend s' history trace := by
  have hclient := h.client c
  unfold Sauvegarde.keep at hstep
  dsimp only at hstep
  split at hstep
  · rename_i url buffer held k hthread
    obtain ⟨⟨buffers, events⟩, hsave, rfl⟩ := Option.map_eq_some_iff.mp hstep
    have hsaves := saves_of_bufferStep hsave
    have hserved : (s.clients c).served = none := hclient.served_none fun _ _ _ _ hcall => by
      obtain ⟨hop, _⟩ := Prog.call.inj (hthread.symm.trans hcall)
      cases hop
    simp only [hserved]
    have hmoves : Moves backend s (s.setClient c ⟨k (), none, buffers, (s.clients c).resent⟩) c
        ⟨k (), none, buffers, (s.clients c).resent⟩ (ClientOp.dbSaveBuffer url buffer held).records := by
      refine ⟨rfl, rfl, rfl, fun _ hhd => hhd, fun _ => Or.inl, fun _ => Or.inl, fun row hrow => Or.inl (hsaves.old row hrow), ?_⟩
      intro row hrow
      refine (hsaves.new row hrow).imp_right ?_
      rintro ⟨rfl, rfl⟩ smeta hsmeta
      exact ⟨row.url, row.data, rfl, hsmeta⟩
    refine h.step hmoves (hclient.returned (.dbSaveBuffer url buffer held) () hmoves.grows hthread trivial ?_
      (hclient.kept.step hsave) ?_ hsaves.sending) (fun g hg => hg.returned _ hthread) ?_
    · -- the blocks of the request are in the row
      rintro g ⟨url', body, hrequest, ⟨_, hg⟩ | ⟨_, hanswer, _⟩⟩
      · obtain ⟨data, rfl, hdata⟩ := Option.map_eq_some_iff.mp hrequest
        obtain ⟨rfl, rfl⟩ := Prod.mk.inj hdata
        obtain ⟨row, hrow, rfl, rfl⟩ := hsaves.row _ rfl
        refine Or.inr ⟨c, row, ?_, hg⟩
        simpa [System.setClient] using hrow
      · exact absurd hanswer.symm (Option.some_ne_none _)
    · intro row hrow
      exact (List.mem_append.mp hrow).resolve_right (hsaves.posted row)
    · intro smeta hsmeta
      exact Or.inr fun g hg => Owes.returned _ hthread (Or.inr ⟨_, k, hthread, smeta, hsmeta, hg⟩)
  · cases hstep

/-- The file is entered in the cache, or its directory in the queue. -/
theorem SystemInv.enter {s s' : System C} {history : C → List ClientEvent} {trace : C → List (BufferEvent Json)} {c : C}
    (h : SystemInv backend s history trace) (hstep : enter s c = some s') :
    ∃ history trace, SystemInv backend s' history trace := by
  have hclient := h.client c
  -- neither operation has a request
  have hreturned : ∀ (op : ClientOp) (k : ClientRes op → ClientProg Unit) (answer : ClientRes op),
      (s.clients c).thread = .call op k → op.request = none → (∀ url body held, op ≠ .postUrl url body held) →
      AnswerOk (some backend) op answer → s' = s.setClient c { s.clients c with thread := k answer } →
      ∃ history trace, SystemInv backend s' history trace := by
    rintro op k answer hthread hrequest hop hok rfl
    have hserved : (s.clients c).served = none := hclient.served_none fun _ _ _ _ hcall => by
      obtain ⟨hpost, _⟩ := Prog.call.inj (hthread.symm.trans hcall)
      exact hop _ _ _ hpost
    simp only [hserved]
    have hmoves := @moves_setClient C backend _ s c ⟨k answer, none, (s.clients c).buffers, (s.clients c).resent⟩ rfl
    refine h.step hmoves (hclient.returned op answer hmoves.grows hthread hok ?_ hclient.kept (fun _ => id)
      fun _ rows hrows => ⟨rows, hrows⟩) (fun g hg => hg.returned _ hthread) fun smeta hsmeta => absurd hsmeta (Set.notMem_empty smeta)
    rintro g ⟨_, _, hsome, _⟩
    exact absurd (hrequest.symm.trans hsome) (by simp)
  unfold Sauvegarde.enter at hstep
  dsimp only at hstep
  split at hstep
  · rename_i metaData onlyMeta k hthread
    exact hreturned (.dbSaveMetaData metaData onlyMeta) k () hthread rfl (by simp) trivial (Option.some.inj hstep).symm
  · rename_i directory k hthread
    exact hreturned (.dirQueuePush directory) k () hthread rfl (by simp) trivial (Option.some.inj hstep).symm
  · cases hstep

/-! ## The second thread -/

/-- The row that is being posted is among those that were kept. -/
theorem Kept.current {trace : List (BufferEvent Json)} {s : Buffers Json} (h : Kept trace s) {row : BufferRow Json}
    {rows : List (BufferRow Json)} (htransmission : s.transmission = .sending (row :: rows)) : row ∈ s.database.buffers := by
  have hphase := h.phase
  rw [htransmission] at hphase
  have hpending : Pending trace s.database.transmited (row :: rows) := hphase
  exact (h.present row (hpending.saved row List.mem_cons_self)).resolve_right (hpending.unrecorded row List.mem_cons_self)

/-- The server processes the row that a client transmits. -/
theorem SystemInv.serveRow {s s' : System C} {history : C → List ClientEvent} {trace : C → List (BufferEvent Json)} {c : C}
    (h : SystemInv backend s history trace) (hstep : serveRow backend s c = some s') :
    ∃ history trace, SystemInv backend s' history trace := by
  unfold Sauvegarde.serveRow at hstep
  dsimp only at hstep
  split at hstep
  · rename_i row rows htransmission hresent
    obtain rfl := Option.some.inj hstep
    have hrow := Kept.current (h.client c).kept htransmission
    have hmoves := @moves_push C backend _ s c { s.clients c with resent := true } row.url row.data rfl
    refine h.step hmoves (?_ : ClientInv backend _ _ (history c) (trace c)) (fun _ hg => hg) fun smeta hsmeta => ?_
    · refine { (h.client c).mono hmoves.grows with resent := fun _ => ?_ }
      exact ⟨row, rows, htransmission, landed_of_pushed rfl⟩
    · exact Or.inl (Or.inr (Or.inr (Or.inr ⟨c, row, hrow, hsmeta⟩)))
  · cases hstep

/-- A step on the tables, after a post that failed or not; the request of such a post was sent already. -/
theorem SystemInv.moved {s : System C} {history : C → List ClientEvent} {trace : C → List (BufferEvent Json)} {c : C}
    {op : BufferOp Json} {buffers : Buffers Json} {events : List (BufferEvent Json)} (processed : Bool)
    (request : Option (String × Json)) (h : SystemInv backend s history trace)
    (hbuffers : bufferStep (s.clients c).buffers op = some (buffers, events)) (hop : ∀ url buffer seen, op ≠ .save url buffer seen)
    (hresent : op = .post true → (s.clients c).resent = true)
    (hsent : ∀ url body, request = some (url, body) → ∀ smeta ∈ recordsOf url body, Sent s smeta) :
    ∃ history trace, SystemInv backend
      ((s.failed processed request).setClient c { s.clients c with buffers := buffers, resent := false }) history trace := by
  have hclient := h.client c
  obtain ⟨hrows, hposted⟩ := bufferStep_transmits hbuffers hop
  have hkept := hclient.kept.step hbuffers
  have hlanded : ∀ row, .posted row true ∈ trace c ++ events → ∀ g ∈ blocksOf row.url row.data, Landed backend s g := by
    intro row hrow
    rcases List.mem_append.mp hrow with hrow | hrow
    · exact hclient.landed row hrow
    · -- the row was posted with success: the server had processed it
      obtain ⟨hpost, rows, htransmission⟩ := hposted row hrow
      obtain ⟨row', rows', htransmission', hblocks⟩ := hclient.resent (hresent hpost)
      obtain ⟨rfl, _⟩ := List.cons.inj (Transmission.sending.inj (htransmission.symm.trans htransmission'))
      exact hblocks
  have hgone : ∀ row ∈ (s.clients c).buffers.database.buffers,
      row ∈ buffers.database.buffers ∨ ∀ g ∈ blocksOf row.url row.data, Landed backend s g := by
    intro row hrow
    by_cases hmem : row ∈ buffers.database.buffers
    · exact Or.inl hmem
    · exact Or.inr (hlanded row (hkept.posted_of_gone (List.mem_append_left _ (hclient.kept.buffered row hrow)) hmem))
  have hmoves := @moves_failed C backend _ s c { s.clients c with buffers := buffers, resent := false } processed request hgone hrows
  refine h.step hmoves (?_ : ClientInv backend _ _ (history c) (trace c ++ events)) (fun _ hg => hg) ?_
  · refine { hclient.mono hmoves.grows with kept := hkept, landed := ?_, resent := fun hresent => absurd hresent Bool.false_ne_true }
    exact fun row hrow g hg => hmoves.grows.landed g (hlanded row hrow g hg)
  · rintro smeta ⟨url, body, hrequest, hsmeta⟩
    exact Or.inl (hsent url body hrequest smeta hsmeta)

/-- The second thread of a client makes a step. -/
theorem SystemInv.transmit {s s' : System C} {history : C → List ClientEvent} {trace : C → List (BufferEvent Json)} {c : C}
    {op : BufferOp Json} (h : SystemInv backend s history trace) (hstep : transmit s c op = some s') :
    ∃ history trace, SystemInv backend s' history trace := by
  have hquiet : (∀ url buffer seen, op ≠ .save url buffer seen) → (op = .post true → (s.clients c).resent = true) →
      ((bufferStep (s.clients c).buffers op).map fun r =>
        s.setClient c { s.clients c with buffers := r.1, resent := false }) = some s' →
      ∃ history trace, SystemInv backend s' history trace := by
    intro hop hresent hmap
    obtain ⟨⟨buffers, events⟩, hbuffers, rfl⟩ := Option.map_eq_some_iff.mp hmap
    exact h.moved true none hbuffers hop hresent (by simp)
  unfold Sauvegarde.transmit at hstep
  dsimp only at hstep
  split at hstep
  · cases hstep
  · cases hstep
  · split at hstep
    · rename_i hresent
      exact hquiet (by simp) (fun _ => hresent) hstep
    · cases hstep
  · -- the row whose post failed is still among those that were kept
    obtain ⟨⟨buffers, events⟩, hbuffers, rfl⟩ := Option.map_eq_some_iff.mp hstep
    refine h.moved _ _ hbuffers (by simp) (by simp) ?_
    intro url body hrequest smeta hsmeta
    unfold Client.currentRow at hrequest
    split at hrequest
    · rename_i row rows htransmission
      obtain ⟨rfl, rfl⟩ := Prod.mk.inj (Option.some.inj hrequest)
      exact Or.inr (Or.inr (Or.inr ⟨c, row, Kept.current (h.client c).kept htransmission, hsmeta⟩))
    · cases hrequest
  · rename_i hsave _ hpost _
    exact hquiet hsave (fun hop => absurd hop hpost) hstep

/-! ## Runs -/

/-- Every step keeps the invariant. -/
theorem SystemInv.next {s s' : System C} {history : C → List ClientEvent} {trace : C → List (BufferEvent Json)}
    {sha256 : Bytes → Hash} {z : Zlib} {op : SystemOp C} (h : SystemInv backend s history trace) (hz : z.Writes)
    (hcounter : op.CounterFits sha256 z) (hstep : nextSystem backend sha256 z s op = some s') :
    ∃ history trace, SystemInv backend s' history trace := by
  cases op with
  | start c file => exact h.start hz hcounter hstep
  | serve c => exact h.serve hstep
  | deliver c success => exact h.deliver hstep
  | keep c seen => exact h.keep hstep
  | enter c => exact h.enter hstep
  | serveRow c => exact h.serveRow hstep
  | transmit c op => exact h.transmit hstep
  | arrive n => exact ⟨history, trace, h.arrive hstep⟩
  | metaDataThread => exact ⟨history, trace, h.metaDataThread hstep⟩
  | dataThread => exact ⟨history, trace, h.dataThread hstep⟩

/-- Every run keeps the invariant. -/
theorem SystemInv.run {sha256 : Bytes → Hash} {z : Zlib} (hz : z.Writes) {ops : List (SystemOp C)} {s : System C}
    {events : List Empty} (halong : Runs.Along (systemStep backend sha256 z) (fun _ op => op.CounterFits sha256 z) System.initial ops)
    (hrun : Runs.execute (systemStep backend sha256 z) System.initial ops = some (s, events)) :
    ∃ history trace, SystemInv backend s history trace := by
  refine @Runs.execute_invariant _ _ _ (systemStep backend sha256 z)
    (fun _ s => ∃ history trace, SystemInv backend s history trace) (fun _ op => op.CounterFits sha256 z) ?_ ops [] events _ _
    ⟨_, _, SystemInv.initial⟩ halong hrun
  rintro _ s op s' _ ⟨history, trace, h⟩ hcounter hstep
  obtain ⟨s'', hnext, heq⟩ := Option.map_eq_some_iff.mp hstep
  obtain ⟨rfl, _⟩ := Prod.mk.inj heq
  exact h.next hz hcounter hnext

end

end SharingAux

/-- In every run of any number of clients, whatever the order of the steps and whichever posts fail: when no client begins with a
file whose blocks can overflow the counter of `send_all_data_to_server`, every hash of every record that is stored, queued, in flight
or buffered has its block stored, queued, or carried by a client; and when nothing is left to do it is stored. -/
theorem deduplication_safe {C : Type} [DecidableEq C] (backend : FileBackend) (sha256 : Bytes → Hash) {z : Zlib} (hz : z.Writes)
    {ops : List (SystemOp C)} {s : System C} {events : List Empty}
    (halong : Runs.Along (systemStep backend sha256 z) (fun _ op => op.CounterFits sha256 z) System.initial ops)
    (hrun : Runs.execute (systemStep backend sha256 z) System.initial ops = some (s, events)) :
    s.Safe backend ∧
      (s.Drained → ∀ smeta ∈ s.records, ∀ h ∈ smeta.hashs, hasBlock backend s.files h = true) := by
  obtain ⟨history, trace, h⟩ := SharingAux.SystemInv.run hz halong hrun
  exact ⟨h.safe, h.drained⟩

/-- The options of a server. -/
def defaultBackend : FileBackend := ⟨str "/var/tmp/cdpfgl/server", 2, by decide⟩

/-- Two clients with the same file. The record of the first is kept while its block is sent, and arrives twice: its post failed, and
arrives late, after the row was transmitted; the second client is not asked for the block. -/
def helloSteps : List (SystemOp Bool) :=
  [.start true (helloFile true), .deliver true false, .keep true false, .serve true, .deliver true true, .dataThread,
    .start false (helloFile true), .serve false, .deliver false true, .enter false, .enter true, .metaDataThread,
    .transmit true .select, .serveRow true, .transmit true (.post true), .arrive 0, .transmit true .record,
    .transmit true .selectTransmited, .transmit true .delete, .transmit true .finish, .metaDataThread, .metaDataThread]

/-- At their end nothing is left to do, and the three records have their block. -/
theorem helloSteps_safe :
    ∃ s, Runs.execute (systemStep defaultBackend zeroDigest storingZlib) System.initial helloSteps = some (s, []) ∧
      s.records.length = 3 ∧ s.Safe defaultBackend ∧
        ∀ smeta ∈ s.records, ∀ h ∈ smeta.hashs, hasBlock defaultBackend s.files h = true := by
  have hrun : (Runs.execute (systemStep defaultBackend zeroDigest storingZlib) System.initial helloSteps).map
      (fun r => (r.2, r.1.records.length, r.1.metaQueue, r.1.dataQueue, (r.1.clients true).thread, (r.1.clients false).thread,
        buffersToTransmit (r.1.clients true).buffers.database, buffersToTransmit (r.1.clients false).buffers.database)) =
      some ([], 3, [], [], .ret (), .ret (), [], []) := rfl
  obtain ⟨⟨s, events⟩, hexecute, heq⟩ := Option.map_eq_some_iff.mp hrun
  simp only [Prod.mk.injEq] at heq
  obtain ⟨rfl, hrecords, hmeta, hdata, hthread, hthread', hrows, hrows'⟩ := heq
  have halong : Runs.Along (systemStep defaultBackend zeroDigest storingZlib) (fun _ op => op.CounterFits zeroDigest storingZlib)
      System.initial helloSteps := by
    refine Runs.along_of_forall (fun op hop => ?_) System.initial
    cases op with
    | start c file =>
      have hfile : file = helloFile true := by
        simp only [helloSteps, List.mem_cons, SystemOp.start.injEq, reduceCtorEq, List.not_mem_nil, or_false, false_or] at hop
        rcases hop with ⟨_, hfile⟩ | ⟨_, hfile⟩ <;> exact hfile
      rw [hfile]
      exact fun _ _ => helloFile_counterFits true
    | _ => trivial
  obtain ⟨hsafe, hdrained⟩ := deduplication_safe defaultBackend zeroDigest storingZlib_writes halong hexecute
  refine ⟨s, hexecute, hrecords, hsafe, hdrained ⟨hmeta, hdata, fun c => ?_⟩⟩
  cases c with
  | true => exact ⟨hthread, hrows⟩
  | false => exact ⟨hthread', hrows'⟩

/-- The meta data of a file of two GiB. -/
def hugeMetaData : MetaData :=
  { newMetaData with
    fileType := G_FILE_TYPE_REGULAR, size := 2147483648, blocksize := 1073741824, name := some (CString.lit "/home/user/huge") }

/-- A file of two blocks of one GiB. -/
def hugeFile (block : Bytes) (hblock : block.length = 1073741824) : FileToSave where
  main := greatestMain
  excluded := false
  metaData := hugeMetaData
  source := ⟨true, [block, block], none, by simp [hblock]⟩
  noHashs := rfl

namespace SharingAux

open BigFileAux SendingAux

/-- Both blocks are read and handed over, then the record is sent. -/
theorem saveOneFile_hugeFile (sha256 : Bytes → Hash) (block : Bytes) (hblock : block.length = 1073741824) :
    ∃ rest : List HashData → Option Json → ClientProg Unit, saveOneFile sha256 storingZlib (hugeFile block hblock) =
      (letsSendAllThatNow greatestMain (List.replicate 2 (hashDataOfBuffer sha256 storingZlib COMPRESS_NONE_TYPE block)) []).bind
        fun saved => (sendMetaDataToServer greatestMain { hugeMetaData with hashDataList := saved.reverse } true).bind
          (rest saved) := by
  have hstream : processStream sha256 storingZlib greatestMain (hugeFile block hblock).source =
      (letsSendAllThatNow greatestMain (List.replicate 2 (hashDataOfBuffer sha256 storingZlib COMPRESS_NONE_TYPE block)) []).bind
        fun saved => .ret saved.reverse := by
    have hhanded : (hugeFile block hblock).source.handed sha256 storingZlib greatestMain =
        [List.replicate 2 (hashDataOfBuffer sha256 storingZlib COMPRESS_NONE_TYPE block)] := handed_hugeSource sha256 storingZlib hblock
    rw [processStream_eq, hhanded, handOver, Prog.bind_assoc]
    rfl
  have hbig : ¬ hugeMetaData.size < CLIENT_SMALL_FILE_SIZE := by decide
  have hout : hugeMetaData.inCache = false := rfl
  constructor
  unfold saveOneFile processFile processBigFileNotInCache
  rw [if_pos (show (hugeFile block hblock).excluded = false from rfl), show (hugeFile block hblock).main = greatestMain from rfl, hstream,
    show (hugeFile block hblock).metaData = hugeMetaData from rfl, if_pos hout, if_neg hbig]
  simp only [Prog.bind_eq, Prog.pure_eq, Prog.bind_assoc, Prog.ret_bind]
  rfl

/-- The post of the hashs fails: all of them are to be sent, and none is. -/
theorem letsSendAllThatNow_overflow {hd : HashData} {h : Hash} (hread : hd.read = 1073741824) (hhash : hd.hash = some h.bytes) :
    ∃ k, letsSendAllThatNow greatestMain [hd, hd] [] =
        .call (.postUrl "/Hash_Array.json" (hashListRoot (convertHashListToJson [hd, hd])).dumps [hd, hd]) k ∧
      k (none : Option Json) = .ret [copyOnlyHash hd, copyOnlyHash hd] := by
  have hhashs : HashsAre [hd, hd] [h, h] := by
    rw [HashsAre, List.map_cons, List.map_cons, hhash]
    rfl
  refine ⟨_, rfl, ?_⟩
  change (sendAllDataToServer greatestMain [hd, hd] (hashListRoot (convertHashListToJson [hd, hd])).dumps).bind _ = _
  rw [dumps_hashListRoot hhashs, sendAllDataToServer_overflow hread hhash]
  rfl

/-- A client begins with a file, and its first post fails. -/
theorem execute_failed {backend : FileBackend} {sha256 : Bytes → Hash} {z : Zlib} {file : FileToSave} {url : String}
    {readbuffer : Option Json} {held : List HashData} {k : ClientRes (.postUrl url readbuffer held) → ClientProg Unit}
    (h : saveOneFile sha256 z file = .call (.postUrl url readbuffer held) k) :
    ∃ s : System Unit, Runs.execute (systemStep backend sha256 z) System.initial [.start () file, .deliver () false] = some (s, []) ∧
      (s.clients ()).thread = k (none : Option Json) ∧ s.files = (fun _ => none) ∧ s.dataQueue = [] ∧
      (s.clients ()).buffers.database.buffers = [] := by
  have hstart : start sha256 z (System.initial : System Unit) () file =
      some (System.initial.setClient () { Client.started with thread := .call (.postUrl url readbuffer held) k }) := by
    rw [← h]
    rfl
  obtain ⟨s, hdeliver, hs⟩ : ∃ s : System Unit,
      deliver (System.initial.setClient () { Client.started with thread := .call (.postUrl url readbuffer held) k }) () false = some s ∧
      (s.clients ()).thread = k (none : Option Json) ∧ s.files = (fun _ => none) ∧ s.dataQueue = [] ∧
      (s.clients ()).buffers.database.buffers = [] := ⟨_, rfl, rfl, rfl, rfl, rfl⟩
  refine ⟨s, ?_, hs⟩
  simp only [Runs.execute, systemStep, nextSystem, hstart, hdeliver, Option.map_some, Option.bind_some]
  rfl

/-- A record that is in flight, and a hash of it whose block is nowhere. -/
theorem not_safe {backend : FileBackend} {s : System Unit} {op : ClientOp} {k : ClientRes op → ClientProg Unit}
    {smeta : ServerMetaData} {h : Hash}
    (hthread : (s.clients ()).thread = .call op k) (hsmeta : smeta ∈ op.records) (hh : h ∈ smeta.hashs) (hcarried : h ∉ op.carried)
    (hfiles : s.files = fun _ => none) (hqueue : s.dataQueue = []) (hrows : (s.clients ()).buffers.database.buffers = []) :
    ¬ s.Safe backend := by
  intro hsafe
  rcases hsafe smeta (Or.inr (Or.inr (Or.inr ⟨(), Or.inl ⟨op, k, hthread, hsmeta⟩⟩))) h hh with hblock | ⟨hd, hhd, _⟩ | ⟨c, hcarries⟩
  · rw [hfiles, hasBlock, blockExists, blockFilename_eq] at hblock
    cases hblock
  · rw [hqueue] at hhd
    exact absurd hhd List.not_mem_nil
  · rcases hcarries with ⟨op', k', hcall, hg⟩ | ⟨row, hrow, _⟩
    · obtain ⟨rfl, _⟩ := Prog.call.inj (hthread.symm.trans hcall)
      exact hcarried hg
    · rw [hrows] at hrow
      exact absurd hrow List.not_mem_nil

/-- A client reads a file of two blocks of one GiB and the post of the hashs fails: the counter has wrapped when both blocks are in
the array, which is not sent. The record that is in flight has their hash, and their block is nowhere. -/
theorem not_safe_hugeFile (sha256 : Bytes → Hash) (block : Bytes) (hblock : block.length = 1073741824) :
    ∃ s : System Unit, Runs.execute (systemStep defaultBackend sha256 storingZlib) System.initial
      [.start () (hugeFile block hblock), .deliver () false] = some (s, []) ∧ ¬ s.Safe defaultBackend := by
  obtain ⟨rest, hsave⟩ := saveOneFile_hugeFile sha256 block hblock
  have hread : (hashDataOfBuffer sha256 storingZlib COMPRESS_NONE_TYPE block).read = 1073741824 := by
    rw [hashDataOfBuffer, newHashData, hblock]
    rfl
  have hhash := @hash_hashDataOfBuffer sha256 storingZlib COMPRESS_NONE_TYPE block
  obtain ⟨k, hlets, hfail⟩ := letsSendAllThatNow_overflow hread hhash
  generalize hashDataOfBuffer sha256 storingZlib COMPRESS_NONE_TYPE block = hd at *
  rw [show List.replicate 2 hd = [hd, hd] from rfl, hlets, Prog.call_bind] at hsave
  obtain ⟨s, hrun, hthread, hfiles, hqueue, hrows⟩ := @execute_failed defaultBackend _ _ _ _ _ _ _ hsave
  refine ⟨s, hrun, ?_⟩
  have hhashs : HashsAre [copyOnlyHash hd, copyOnlyHash hd] [sha256 block, sha256 block] :=
    @CachedAux.hashsAre_copyOnlyHash [hd, hd] _ (by rw [HashsAre, List.map_cons, List.map_cons, hhash]; rfl)
  have hwritten : convertMetaDataToJsonString { hugeMetaData with hashDataList := [copyOnlyHash hd, copyOnlyHash hd] }
      (some greatestMain.hostname) true ≠ none :=
    (CachedAux.written_congr (show HashsAre hugeMetaData.hashDataList [] from rfl) hhashs _ _).mpr
      (Option.isSome_iff_ne_none.mp (by decide))
  obtain ⟨body, hbody⟩ := Option.ne_none_iff_exists'.mp hwritten
  obtain ⟨m, hm, hrecords, _, hprocessed⟩ := SavingAux.meta_body hhashs hbody
  rw [hfail, Prog.ret_bind, List.reverse_cons, List.reverse_singleton, List.singleton_append] at hthread
  unfold sendMetaDataToServer at hthread
  rw [hbody] at hthread
  refine not_safe (h := sha256 block) hthread ⟨_, _, rfl, (hrecords _).mpr rfl⟩ ⟨m, rfl, ?_⟩ ?_ hfiles hqueue hrows
  · exact hm.mem.mpr List.mem_cons_self
  · rintro (⟨url, body', hrequest, hg⟩ | hg)
    · obtain ⟨rfl, rfl⟩ := Prod.mk.inj (Option.some.inj hrequest)
      obtain ⟨hd', hhd', _⟩ := (@mem_blocksOf none (fun _ => none) _ _ _).mp hg
      rw [hprocessed] at hhd'
      exact absurd hhd' List.not_mem_nil
    · -- the copies that are left have no data
      obtain ⟨hd', hhd', _, hdata⟩ := hg
      simp only [ClientOp.held, List.mem_cons, List.not_mem_nil, or_false, or_self] at hhd'
      subst hhd'
      exact hdata rfl

end SharingAux

/-- A client reads a file of two GiB with the greatest buffer size, and its first post fails: a record is in flight, and the block of
its hashs is nowhere. -/
theorem hugeFile_unsafe :
    ∃ s : System Unit, Runs.execute (systemStep defaultBackend zeroDigest storingZlib) System.initial
      [.start () (hugeFile (List.replicate 1073741824 0) List.length_replicate), .deliver () false] = some (s, []) ∧
        ¬ s.Safe defaultBackend :=
  SharingAux.not_safe_hugeFile zeroDigest _ _

end Sauvegarde
