import Sauvegarde.Server.Handler

/-!
# The statistics add up

After any calls of the handler, for any requests in any order, the totals of the statistics are the sums of their parts, and the total
of all is the number of requests that were answered or refused.
-/

namespace Sauvegarde

namespace StatisticsAux

open Handler

/-- A call that ends a request. -/
def ends : Event → Bool
  | Event.proceed => false
  | Event.respond _ => true
  | Event.refuse => true

/-- What every call keeps: the sums, and the number of the requests that are complete. -/
structure Counted (trace : List Event) (server : Server) : Prop where
  addUp : server.stats.requests.AddUp
  completed : server.stats.requests.nbRequest = UInt64.ofNat (trace.countP ends)

/-- One request more is complete. -/
theorem ofNat_countP_append {trace : List Event} {event : Event} (h : ends event = true) :
    UInt64.ofNat ((trace ++ [event]).countP ends) = UInt64.ofNat (trace.countP ends) + 1 := by
  rw [List.countP_append, List.countP_singleton, if_pos h, UInt64.ofNat_add]
  rfl

/-- The step. -/
theorem counted_ahc {trace events : List Event} {server server' : Server} {call : Call} (hcounted : Counted trace server)
    (h : ahc server call = some (server', events)) : Counted (trace ++ events) server' := by
  rcases ahc_counts h with heq | ⟨response, hget⟩ | ⟨response, hpost⟩ | heq
  · refine ⟨heq ▸ hcounted.addUp, ?_⟩
    rw [heq, hcounted.completed, List.countP_append, List.countP_singleton, if_neg (by simp [ends]), Nat.add_zero]
  · exact ⟨hget.addUp hcounted.addUp, by rw [hget.total, hcounted.completed, ofNat_countP_append rfl]⟩
  · exact ⟨hpost.addUp hcounted.addUp, by rw [hpost.total, hcounted.completed, ofNat_countP_append rfl]⟩
  · refine ⟨heq ▸ addOneUnknownRequest_addUp hcounted.addUp, ?_⟩
    rw [heq, ofNat_countP_append rfl, ← hcounted.completed]
    rfl

end StatisticsAux

open Handler StatisticsAux

/-- The statistics add up after every run of the handler: the total of all requests is the sum of those of GET, POST and other
requests, and the totals of GET and POST requests are the sums of the counters by URL. The total counts the requests that are
complete. -/
theorem statistics_addUp {calls : List Call} {server : Server} {trace : List Event}
    (h : Runs.execute ahc newServer calls = some (server, trace)) :
    server.stats.requests.AddUp ∧ server.stats.requests.nbRequest = UInt64.ofNat (trace.countP ends) := by
  have halong : Runs.Along ahc (fun _ _ => True) newServer calls := Runs.along_of_forall (fun _ _ => trivial) newServer
  have hstep : ∀ trace server call server' events, Counted trace server → True → ahc server call = some (server', events) →
      Counted (trace ++ events) server' := by
    intro trace server call server' events hcounted _ hstep
    exact counted_ahc hcounted hstep
  have hcounted : Counted ([] ++ trace) server := Runs.execute_invariant hstep calls ⟨newStats_addUp, rfl⟩ halong h
  exact ⟨hcounted.addUp, hcounted.completed⟩

/-- A server without files, whose memory holds zeros. -/
def emptyContext : Context where
  malloc n := List.replicate n 0
  jsonLoads _ := none
  debugMode := false
  contentLength := some (CString.lit "0")
  convertVersionToJson := some (Json.obj [])
  bufferVersions := []
  getAListOfFiles := some none
  getDataFromAListOfHashs := some none
  getDataFromASpecificHash _ := some none
  findNeededHashs _ := Json.arr []

/-- A call for a request without a body. -/
def plainCall (request : Nat) (method url : String) : Call :=
  ⟨request, some (CString.lit method), CString.lit url, [], emptyContext⟩

/-- Two GET requests, the second begun before the first is answered, a POST request and one with another method. -/
def someCalls : List Call :=
  [plainCall 1 "GET" "/Version", plainCall 2 "GET" "/File/List.json", plainCall 1 "GET" "/Version",
    plainCall 3 "POST" "/Data.json", plainCall 2 "GET" "/File/List.json", plainCall 3 "POST" "/Data.json",
    plainCall 4 "DELETE" "/Data.json"]

/-- The statistics of these calls: four requests, that add up. -/
theorem statistics_someCalls : ∃ server trace, Runs.execute ahc newServer someCalls = some (server, trace) ∧
    server.stats.requests.AddUp ∧ server.stats.requests.nbRequest = 4 := by
  have hrun : (Runs.execute ahc newServer someCalls).map (fun result => result.2.countP ends) = some 4 := by rfl
  obtain ⟨⟨server, trace⟩, hexecute, hcount⟩ := Option.map_eq_some_iff.mp hrun
  obtain ⟨haddUp, hcompleted⟩ := statistics_addUp hexecute
  exact ⟨server, trace, hexecute, haddUp, by rw [hcompleted, hcount]; rfl⟩

end Sauvegarde
