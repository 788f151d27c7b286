import Sauvegarde.System
import Sauvegarde.Theorems.Buffers
import Sauvegarde.Theorems.Cached

/-!
# What ties clients to their server

The invariant of clients that share one server: what each of them has accounted for has reached the server, or is in a request that
some client keeps, and every hash of a record that was sent is among it or is owed by a client.
-/

namespace Sauvegarde

namespace SharingAux

open SavingAux BuffersAux

/-! ## The tables -/

section

variable {Text : Type} {s s' : Buffers Text} {events : List (BufferEvent Text)}

/-- `db_save_buffer` adds one row, the row that is being posted stays the same, and no post succeeds. -/
structure Saves (url : String) (buffer : Option Text) (s s' : Buffers Text) (events : List (BufferEvent Text)) : Prop where
  old : ∀ row ∈ s.database.buffers, row ∈ s'.database.buffers
  new : ∀ row ∈ s'.database.buffers, row ∈ s.database.buffers ∨ (row.url = url ∧ buffer = some row.data)
  row : ∀ data, buffer = some data → ∃ row ∈ s'.database.buffers, row.url = url ∧ row.data = data
  sending : ∀ row rows, s.transmission = .sending (row :: rows) → ∃ rows', s'.transmission = .sending (row :: rows')
  posted : ∀ row, .posted row true ∉ events

theorem saves_of_bufferStep {url : String} {buffer : Option Text} {seen : Bool}
    (h : bufferStep s (.save (some url) buffer seen) = some (s', events)) : Saves url buffer s s' events := by
  rw [bufferStep, newBufferRow, Option.bind_some] at h
  rcases buffer with _ | data
  · simp only [Option.map_none, Option.some.injEq, Prod.mk.injEq] at h
    obtain ⟨rfl, rfl⟩ := h
    exact ⟨fun _ => id, fun _ => Or.inl, by simp, fun _ rows hrows => ⟨rows, hrows⟩, by simp⟩
  · simp only [Option.map_some, dbSaveBuffer, newBufferRow, Option.bind_some, Option.some.injEq, Prod.mk.injEq] at h
    obtain ⟨rfl, rfl⟩ := h
    constructor
    case old => exact fun _ hrow => List.mem_append_left _ hrow
    case new =>
      intro row hrow
      refine (List.mem_append.mp hrow).imp_right fun hlast => ?_
      rw [List.mem_singleton.mp hlast]
      exact ⟨rfl, rfl⟩
    case row =>
      intro data' hdata
      exact ⟨_, List.mem_append_right _ List.mem_cons_self, rfl, Option.some.inj hdata⟩
    case sending =>
      intro row rows hrows
      cases seen with
      | false => exact ⟨rows, hrows⟩
      | true => exact ⟨_, by simp only [hrows]; rfl⟩
    case posted => simp

/-- The other steps add no row, and only a post that succeeds, of the row whose turn it is, leaves such an event. -/
theorem bufferStep_transmits {op : BufferOp Text} (h : bufferStep s op = some (s', events))
    (hop : ∀ url buffer seen, op ≠ .save url buffer seen) :
    (∀ row ∈ s'.database.buffers, row ∈ s.database.buffers) ∧
      ∀ row, .posted row true ∈ events → op = .post true ∧ ∃ rows, s.transmission = .sending (row :: rows) := by
  obtain ⟨database, transmission⟩ := s
  cases op with
  | save url buffer seen => exact absurd rfl (hop url buffer seen)
  | post success =>
    rcases transmission with _ | (_ | ⟨row, rows⟩) | _ | _ <;>
      simp only [bufferStep, reduceCtorEq, Option.some.injEq, Prod.mk.injEq] at h
    obtain ⟨rfl, rfl⟩ := h
    refine ⟨fun _ => id, fun row' hposted => ?_⟩
    obtain ⟨rfl, rfl⟩ := BufferEvent.posted.inj (List.mem_singleton.mp hposted)
    exact ⟨rfl, rows, rfl⟩
  | record =>
    cases transmission <;> simp only [bufferStep, reduceCtorEq, Option.some.injEq, Prod.mk.injEq] at h
    obtain ⟨rfl, rfl⟩ := h
    exact ⟨by simp, by simp⟩
  | delete =>
    rcases transmission with _ | _ | _ | (_ | ⟨id, ids⟩) <;>
      simp only [bufferStep, reduceCtorEq, Option.some.injEq, Prod.mk.injEq] at h
    obtain ⟨rfl, rfl⟩ := h
    exact ⟨fun row hrow => (List.mem_filter.mp hrow).1, by simp⟩
  | _ =>
    rcases transmission with _ | (_ | ⟨row, rows⟩) | _ | (_ | ⟨i, ids⟩) <;>
      simp only [bufferStep, reduceCtorEq, Option.some.injEq, Prod.mk.injEq] at h <;>
      obtain ⟨rfl, rfl⟩ := h <;> exact ⟨fun _ => id, by simp⟩

end

section

variable {C : Type} (backend : FileBackend)

/-! ## The invariant -/

/-- The block of a hash reached the server. -/
def Landed (s : System C) (h : Hash) : Prop := hasBlock backend s.files h = true ∨ s.Queued h

/-- The block of a hash reached the server, or is in a request that was kept. -/
def Secured (s : System C) (h : Hash) : Prop :=
  Landed backend s h ∨ ∃ c, ∃ row ∈ (s.clients c).buffers.database.buffers, h ∈ blocksOf row.url row.data

/-- A hash of a record that a client sent, or is sending. -/
def Owes (client : Client) (history : List ClientEvent) (h : Hash) : Prop :=
  h ∈ recorded history ∨ ∃ op k, client.thread = .call op k ∧ h ∈ op.recordHashs

/-- What ties a client to what happened to it: `history` is that of its first thread, `trace` that of the requests it kept. -/
structure ClientInv (s : System C) (client : Client) (history : List ClientEvent) (trace : List (BufferEvent Json)) : Prop where
  checked : client.thread.wp (savingRules (some backend) fun _ => True) (fun _ history' => Carries history' ∅) history
  secured : ∀ h ∈ accounted history, Secured backend s h
  served : ∀ answer, client.served = some answer → ∃ url body held k,
    client.thread = .call (.postUrl url (some body) held) k ∧ (∀ h ∈ blocksOf url body, Landed backend s h) ∧
      ∃ files, (∀ h, hasBlock backend files h = true → hasBlock backend s.files h = true) ∧
        (processReceivedData (some backend) files url body).answer = some answer
  kept : Kept trace client.buffers
  landed : ∀ row, .posted row true ∈ trace → ∀ h ∈ blocksOf row.url row.data, Landed backend s h
  resent : client.resent = true → ∃ row rows, client.buffers.transmission = .sending (row :: rows) ∧
    ∀ h ∈ blocksOf row.url row.data, Landed backend s h

/-- A record that the server has, or that is in a request that was kept or may arrive late. -/
def Sent (s : System C) (smeta : ServerMetaData) : Prop :=
  smeta ∈ s.records ∨ smeta ∈ s.metaQueue ∨ (∃ request ∈ s.late, smeta ∈ recordsOf request.1 request.2) ∨
    ∃ c, ∃ row ∈ (s.clients c).buffers.database.buffers, smeta ∈ recordsOf row.url row.data

/-- The invariant: every hash of a record that was sent has its block secured, or is owed by a client. -/
structure SystemInv (s : System C) (history : C → List ClientEvent) (trace : C → List (BufferEvent Json)) : Prop where
  client : ∀ c, ClientInv backend s (s.clients c) (history c) (trace c)
  sent : ∀ smeta, Sent s smeta → ∀ h ∈ smeta.hashs, Secured backend s h ∨ ∃ c, Owes (s.clients c) (history c) h

end

section

variable {C : Type} {backend : FileBackend}

/-! ## What the invariant gives -/

/-- What a client owes is secured, or it carries it. -/
theorem ClientInv.carries {s : System C} {client : Client} {history : List ClientEvent} {trace : List (BufferEvent Json)}
    (h : ClientInv backend s client history trace) {g : Hash} (hg : Owes client history g) :
    Secured backend s g ∨ client.Carries g := by
  have hchecked := h.checked
  rcases hthread : client.thread with _ | ⟨op, k⟩
  · rw [hthread] at hchecked
    rcases hg with hg | ⟨op, k, hcall, _⟩
    · exact Or.inl (h.secured g ((hchecked g hg).resolve_right (Set.notMem_empty g)))
    · exact absurd (hthread.symm.trans hcall) (by simp)
  · rw [hthread] at hchecked
    have hcarried : g ∈ recorded history ∨ g ∈ op.recordHashs := by
      refine hg.imp_right ?_
      rintro ⟨op', k', hcall, hg⟩
      obtain ⟨rfl, _⟩ := Prog.call.inj (hthread.symm.trans hcall)
      exact hg
    rcases hchecked.1.carried g hcarried with hg | hg
    · exact Or.inl (h.secured g hg)
    · exact Or.inr (Or.inl ⟨op, k, hthread, hg⟩)

/-- The invariant gives safety. -/
theorem SystemInv.safe {s : System C} {history : C → List ClientEvent} {trace : C → List (BufferEvent Json)}
    (h : SystemInv backend s history trace) : s.Safe backend := by
  have hsecured : ∀ g, Secured backend s g →
      hasBlock backend s.files g = true ∨ s.Queued g ∨ ∃ c, (s.clients c).Carries g := by
    rintro g ((hg | hg) | ⟨c, hg⟩)
    · exact Or.inl hg
    · exact Or.inr (Or.inl hg)
    · exact Or.inr (Or.inr ⟨c, Or.inr hg⟩)
  have howed : ∀ c g, Owes (s.clients c) (history c) g →
      hasBlock backend s.files g = true ∨ s.Queued g ∨ ∃ c, (s.clients c).Carries g := by
    intro c g hg
    rcases (h.client c).carries hg with hg | hg
    · exact hsecured g hg
    · exact Or.inr (Or.inr ⟨c, hg⟩)
  intro smeta hsmeta g hg
  have hsent : Sent s smeta → hasBlock backend s.files g = true ∨ s.Queued g ∨ ∃ c, (s.clients c).Carries g := by
    intro hsent
    rcases h.sent smeta hsent g hg with hg | ⟨c, hg⟩
    · exact hsecured g hg
    · exact howed c g hg
  rcases hsmeta with hsmeta | hsmeta | hsmeta | ⟨c, ⟨op, k, hthread, hsmeta⟩ | hsmeta⟩
  · exact hsent (Or.inl hsmeta)
  · exact hsent (Or.inr (Or.inl hsmeta))
  · exact hsent (Or.inr (Or.inr (Or.inl hsmeta)))
  · exact howed c g (Or.inr ⟨op, k, hthread, smeta, hsmeta, hg⟩)
  · exact hsent (Or.inr (Or.inr (Or.inr ⟨c, hsmeta⟩)))

/-- When nothing is left to do, every hash of every stored record has its block. -/
theorem SystemInv.drained {s : System C} {history : C → List ClientEvent} {trace : C → List (BufferEvent Json)}
    (h : SystemInv backend s history trace) (hdrained : s.Drained) :
    ∀ smeta ∈ s.records, ∀ g ∈ smeta.hashs, hasBlock backend s.files g = true := by
  obtain ⟨_, hqueue, hclients⟩ := hdrained
  have hlanded : ∀ g, Landed backend s g → hasBlock backend s.files g = true := by
    rintro g (hg | ⟨hd, hhd, _⟩)
    · exact hg
    · rw [hqueue] at hhd
      exact absurd hhd List.not_mem_nil
  -- a row that is left was recorded, so its post succeeded
  have hsecured : ∀ g, Secured backend s g → hasBlock backend s.files g = true := by
    rintro g (hg | ⟨c, row, hrow, hg⟩)
    · exact hlanded g hg
    · have hkept := (h.client c).kept
      have hid : row.bufferId ∈ (s.clients c).buffers.database.transmited := by
        by_contra hid
        have hmem := (mem_buffersToTransmit hrow hid).1
        rw [(hclients c).2] at hmem
        exact absurd hmem List.not_mem_nil
      exact hlanded g ((h.client c).landed row (hkept.posted (hkept.buffered row hrow) hid) g hg)
  intro smeta hsmeta g hg
  rcases h.sent smeta (Or.inl hsmeta) g hg with hg | ⟨c, hg⟩
  · exact hsecured g hg
  · rcases (h.client c).carries hg with hg | ⟨op, k, hthread, _⟩ | ⟨row, hrow, hg⟩
    · exact hsecured g hg
    · exact absurd ((hclients c).1.symm.trans hthread) (by simp)
    · exact hsecured g (Or.inr ⟨c, row, hrow, hg⟩)

/-- The invariant holds before anything is saved. -/
theorem SystemInv.initial : SystemInv backend (System.initial (C := C)) (fun _ => []) (fun _ => []) where
  client := fun _ => {
    checked := fun g hg => absurd hg (by simp [recorded])
    secured := fun g hg => absurd hg (by simp [accounted])
    served := fun _ hanswer => absurd hanswer.symm (Option.some_ne_none _)
    kept := kept_created
    landed := fun _ hrow => absurd hrow List.not_mem_nil
    resent := fun hresent => absurd hresent Bool.false_ne_true }
  sent := by
    rintro smeta (hmem | hmem | ⟨_, hmem, _⟩ | ⟨_, _, hmem, _⟩) <;> exact absurd hmem List.not_mem_nil

/-! ## Steps -/

/-- No block is lost from one state to the next. -/
structure Grows (backend : FileBackend) (s s' : System C) : Prop where
  files : ∀ h, hasBlock backend s.files h = true → hasBlock backend s'.files h = true
  landed : ∀ h, Landed backend s h → Landed backend s' h
  secured : ∀ h, Secured backend s h → Secured backend s' h

/-- What was true of a client stays true when another part of the system makes a step. -/
theorem ClientInv.mono {s s' : System C} {client : Client} {history : List ClientEvent} {trace : List (BufferEvent Json)}
    (h : ClientInv backend s client history trace) (hgrows : Grows backend s s') :
    ClientInv backend s' client history trace where
  checked := h.checked
  secured := fun g hg => hgrows.secured g (h.secured g hg)
  served := by
    intro answer hanswer
    obtain ⟨url, body, held, k, hthread, hblocks, files, hfiles, hprocessed⟩ := h.served answer hanswer
    exact ⟨url, body, held, k, hthread, fun g hg => hgrows.landed g (hblocks g hg), files,
      fun g hg => hgrows.files g (hfiles g hg), hprocessed⟩
  kept := h.kept
  landed := fun row hrow g hg => hgrows.landed g (h.landed row hrow g hg)
  resent := by
    intro hresent
    obtain ⟨row, rows, htransmission, hblocks⟩ := h.resent hresent
    exact ⟨row, rows, htransmission, fun g hg => hgrows.landed g (hblocks g hg)⟩

/-- A step of the server alone. -/
theorem SystemInv.server {s s' : System C} {history : C → List ClientEvent} {trace : C → List (BufferEvent Json)}
    (h : SystemInv backend s history trace) (hclients : s'.clients = s.clients) (hgrows : Grows backend s s')
    (hsent : ∀ smeta, Sent s' smeta → Sent s smeta) : SystemInv backend s' history trace where
  client := fun c => by
    rw [hclients]
    exact (h.client c).mono hgrows
  sent := by
    intro smeta hsmeta g hg
    rw [hclients]
    exact (h.sent smeta (hsent smeta hsmeta) g hg).imp_left (hgrows.secured g)

/-! ## The server -/

/-- A request whose post failed arrives. -/
theorem SystemInv.arrive {s s' : System C} {history : C → List ClientEvent} {trace : C → List (BufferEvent Json)} {n : Nat}
    (h : SystemInv backend s history trace) (hstep : arrive backend s n = some s') : SystemInv backend s' history trace := by
  obtain ⟨⟨url, body⟩, hrequest, rfl⟩ := Option.map_eq_some_iff.mp hstep
  have hlanded : ∀ g, Landed backend s g → Landed backend
      { s.push (processReceivedData (some backend) s.files url body) with late := s.late.eraseIdx n } g := by
    rintro g (hg | ⟨hd, hhd, hblock⟩)
    · exact Or.inl hg
    · exact Or.inr ⟨hd, List.mem_append_left _ hhd, hblock⟩
  refine h.server rfl ⟨fun _ => id, hlanded, fun g => Or.imp_left (hlanded g)⟩ ?_
  rintro smeta (hmem | hmem | ⟨request, hmem, hrecord⟩ | hmem)
  · exact Or.inl hmem
  · rcases List.mem_append.mp hmem with hmem | hmem
    · exact Or.inr (Or.inl hmem)
    · exact Or.inr (Or.inr (Or.inl ⟨(url, body), List.mem_of_getElem? hrequest, mem_recordsOf.mpr hmem⟩))
  · exact Or.inr (Or.inr (Or.inl ⟨request, List.mem_of_mem_eraseIdx hmem, hrecord⟩))
  · exact Or.inr (Or.inr (Or.inr hmem))

/-- `meta_data_thread` takes a record out of its queue. -/
theorem SystemInv.metaDataThread {s s' : System C} {history : C → List ClientEvent} {trace : C → List (BufferEvent Json)}
    (h : SystemInv backend s history trace) (hstep : metaDataThread s = some s') : SystemInv backend s' history trace := by
  unfold Sauvegarde.metaDataThread at hstep
  split at hstep
  · cases hstep
  · rename_i smeta metaQueue hqueue
    obtain rfl := Option.some.inj hstep
    refine h.server rfl ⟨fun _ => id, fun _ => id, fun _ => id⟩ ?_
    rintro smeta' (hmem | hmem | hmem)
    · rcases List.mem_append.mp hmem with hmem | hmem
      · exact Or.inl hmem
      · refine Or.inr (Or.inl ?_)
        rw [hqueue, List.mem_singleton.mp hmem]
        exact List.mem_cons_self
    · refine Or.inr (Or.inl ?_)
      rw [hqueue]
      exact List.mem_cons_of_mem _ hmem
    · exact Or.inr (Or.inr hmem)

/-- `data_thread` takes a block out of its queue. -/
theorem SystemInv.dataThread {s s' : System C} {history : C → List ClientEvent} {trace : C → List (BufferEvent Json)}
    (h : SystemInv backend s history trace) (hstep : dataThread backend s = some s') : SystemInv backend s' history trace := by
  unfold Sauvegarde.dataThread at hstep
  split at hstep
  · cases hstep
  · rename_i hashData dataQueue hqueue
    obtain rfl := Option.some.inj hstep
    have hlanded : ∀ g, Landed backend s g → Landed backend
        { s with files := fileStoreData backend s.files hashData, dataQueue := dataQueue } g := by
      rintro g (hg | ⟨hd, hhd, hhash, hdata⟩)
      · exact Or.inl (hasBlock_mono hashData hg)
      · rw [hqueue] at hhd
        rcases List.mem_cons.mp hhd with rfl | hhd
        · exact Or.inl ((hasBlock_fileStoreData hhash).mpr (Or.inr ⟨hdata, rfl⟩))
        · exact Or.inr ⟨hd, hhd, hhash, hdata⟩
    exact h.server rfl ⟨fun _ => hasBlock_mono hashData, hlanded, fun g => Or.imp_left (hlanded g)⟩ fun _ => id

/-! ## The operations of a client -/

/-- What a client owes it owes after the operation returned. -/
theorem Owes.returned {client client' : Client} {history : List ClientEvent} {op : ClientOp} {k : ClientRes op → ClientProg Unit}
    (answer : ClientRes op) (hthread : client.thread = .call op k) {g : Hash} (h : Owes client history g) :
    Owes client' (history ++ [⟨op, answer⟩]) g := by
  refine Or.inl ?_
  rw [recorded_append]
  rcases h with hg | ⟨op', k', hcall, hg⟩
  · exact Or.inl hg
  · obtain ⟨rfl, _⟩ := Prog.call.inj (hthread.symm.trans hcall)
    exact Or.inr ((mem_recorded_singleton _ _).mpr hg)

/-- No post that has a body is under way: nothing was served. -/
theorem ClientInv.served_none {s : System C} {client : Client} {history : List ClientEvent} {trace : List (BufferEvent Json)}
    (h : ClientInv backend s client history trace)
    (hthread : ∀ url body held k, client.thread ≠ .call (.postUrl url (some body) held) k) : client.served = none := by
  by_contra hserved
  obtain ⟨answer, hanswer⟩ := Option.ne_none_iff_exists'.mp hserved
  obtain ⟨url, body, held, k, hcall, _⟩ := h.served answer hanswer
  exact hthread url body held k hcall

/-- An operation returned: what the answer accounts for is secured. -/
theorem ClientInv.returned {s s' : System C} {client : Client} {history : List ClientEvent} {trace trace' : List (BufferEvent Json)}
    (op : ClientOp) {k : ClientRes op → ClientProg Unit} (answer : ClientRes op) {buffers : Buffers Json}
    (h : ClientInv backend s client history trace) (hgrows : Grows backend s s') (hthread : client.thread = .call op k)
    (hok : AnswerOk (some backend) op answer) (haccounted : ∀ g ∈ accountedBy ⟨op, answer⟩, Secured backend s' g)
    (hkept : Kept trace' buffers) (hposted : ∀ row, .posted row true ∈ trace' → .posted row true ∈ trace)
    (htransmission : ∀ row rows, client.buffers.transmission = .sending (row :: rows) →
      ∃ rows', buffers.transmission = .sending (row :: rows')) :
    ClientInv backend s' ⟨k answer, none, buffers, client.resent⟩ (history ++ [⟨op, answer⟩]) trace' where
  checked := by
    have hchecked := h.checked
    rw [hthread] at hchecked
    exact hchecked.2 answer hok
  secured := by
    intro g hg
    rw [accounted_append] at hg
    rcases hg with hg | hg
    · exact hgrows.secured g (h.secured g hg)
    · exact haccounted g ((mem_accounted_singleton _ _).mp hg)
  served := fun answer hanswer => absurd hanswer.symm (Option.some_ne_none _)
  kept := hkept
  landed := fun row hrow g hg => hgrows.landed g (h.landed row (hposted row hrow) g hg)
  resent := by
    intro hresent
    obtain ⟨row, rows, hrows, hblocks⟩ := h.resent hresent
    obtain ⟨rows', hrows'⟩ := htransmission row rows hrows
    exact ⟨row, rows', hrows', fun g hg => hgrows.landed g (hblocks g hg)⟩

/-- The blocks of a request that the server processed have landed. -/
theorem landed_of_pushed {s s' : System C} {url : String} {body : Json}
    (hqueue : s'.dataQueue = s.dataQueue ++ (processReceivedData (some backend) s.files url body).dataQueue) :
    ∀ h ∈ blocksOf url body, Landed backend s' h := by
  intro g hg
  obtain ⟨hd, hhd, hblock⟩ := (@mem_blocksOf (some backend) s.files url body g).mp hg
  exact Or.inr ⟨hd, hqueue ▸ List.mem_append_right _ hhd, hblock⟩

end

end SharingAux

end Sauvegarde
