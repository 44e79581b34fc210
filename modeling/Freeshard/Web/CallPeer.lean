import Freeshard.Memo.Lru

/-! # Calls to the apps of peers

`web/internal/call_peer.py`: a request of one of the shard's apps is passed on to the app of the same name on a peer. The
app is told by the address the request comes from, and what Docker has said about an address is cached. -/

namespace Freeshard.CallPeer
set_option autoImplicit false

/-- A running container, with its address in the network `portal` if it is connected to it. -/
structure Container where
  name : String
  portalAddress : Option String
  deriving DecidableEq, Repr

/-- What Docker says at some time. -/
structure DockerHost where
  hasPortal : Bool
  containers : List Container

inductive Exn where
  /-- There is no network `portal`. -/
  | notFound
  | keyError (key : String)
  | runtimeError (message : String)
  deriving DecidableEq, Repr

/-- The loop of `_get_app_for_ip_address`; a container that is not in the network ends it. -/
def findContainer (ipAddress : String) : List Container → Except Exn String
  | [] => .error (.runtimeError s!"no running container found for address {ipAddress}")
  | c :: containers =>
    match c.portalAddress with
    | none => .error (.keyError "portal")
    | some address => if address = ipAddress then .ok c.name else findContainer ipAddress containers

/-- `_get_app_for_ip_address`, when it is not cached. -/
def DockerHost.getAppForIpAddress (docker : DockerHost) (ipAddress : String) : Except Exn String :=
  if docker.hasPortal then findContainer ipAddress docker.containers else .error .notFound

/-- A request to `call_peer`, and what Docker says when it comes. -/
structure Call where
  id : String
  rest : String
  method : String
  body : String
  clientHost : String
  docker : DockerHost

/-- What is sent to the peer. -/
structure SignedRequest where
  method : String
  url : String
  body : String
  deriving DecidableEq, Repr

def Call.lookup (call : Call) : Lru.Request String Exn String :=
  ⟨call.clientHost, call.docker.getAppForIpAddress call.clientHost⟩

/-- The request for the app of a peer. -/
def Call.signedRequest (call : Call) (appName : String) : SignedRequest where
  method := call.method
  url := s!"https://{appName}.{call.id}.freeshard.cloud/{call.rest}"
  body := call.body

/-- The default `maxsize` of `lru_cache`. -/
def maxsize : ℕ := 128

/-- `call_peer`, after these calls, latest first. -/
def callPeer (log : List Call) (call : Call) : Except Exn SignedRequest :=
  (Lru.answer maxsize (log.map Call.lookup) call.lookup).map call.signedRequest

/-- The addresses that calls have come from, and the apps they were taken for, latest first. -/
def attributed (log : List Call) : List (String × String) := Lru.uses maxsize (log.map Call.lookup)

/-! ## Whose address it is -/

/-- A container of this name has the address. -/
def DockerHost.Has (docker : DockerHost) (appName address : String) : Prop :=
  ∃ c ∈ docker.containers, c.name = appName ∧ c.portalAddress = some address

theorem has_of_findContainer {ipAddress appName : String} {containers : List Container}
    (h : findContainer ipAddress containers = .ok appName) :
    ∃ c ∈ containers, c.name = appName ∧ c.portalAddress = some ipAddress := by
  induction containers with
  | nil => cases h
  | cons c containers ih =>
    rw [findContainer] at h
    split at h
    · cases h
    · next address haddress =>
      split at h
      · next heq =>
        obtain rfl := heq
        exact ⟨c, List.mem_cons_self, Except.ok.inj h, haddress⟩
      · obtain ⟨c', hc', hboth⟩ := ih h
        exact ⟨c', List.mem_cons_of_mem _ hc', hboth⟩

theorem has_of_getAppForIpAddress {docker : DockerHost} {ipAddress appName : String}
    (h : docker.getAppForIpAddress ipAddress = .ok appName) : docker.Has appName ipAddress := by
  unfold DockerHost.getAppForIpAddress at h
  split at h
  · exact has_of_findContainer h
  · cases h

/-! ## Main result -/

/-- A call from an address is taken for a call of the app that the last one from there was taken for, if since then there
were calls from fewer than 128 other addresses, and of the app that has the address now otherwise. An app it is taken for
has had the address when a call came from there. -/
theorem call_peer_attribution (log : List Call) (call : Call) :
    (∀ newer appName older, attributed log = newer ++ (call.clientHost, appName) :: older →
      call.clientHost ∉ newer.map Prod.fst →
      callPeer log call = if (newer.map Prod.fst).toFinset.card < 128 then .ok (call.signedRequest appName)
        else (call.docker.getAppForIpAddress call.clientHost).map call.signedRequest) ∧
    (call.clientHost ∉ (attributed log).map Prod.fst →
      callPeer log call = (call.docker.getAppForIpAddress call.clientHost).map call.signedRequest) ∧
    ∀ request, callPeer log call = .ok request → ∃ appName, request = call.signedRequest appName ∧
      ∃ call' ∈ call :: log, call'.clientHost = call.clientHost ∧ call'.docker.Has appName call.clientHost := by
  have hsize : 0 < maxsize := by decide
  refine ⟨fun newer appName older huses hnewer => ?_, fun hnew => ?_, fun request hrequest => ?_⟩
  · split
    · next hfew => rw [callPeer, Lru.answer_of_recent (q := call.lookup) huses hnewer hfew]; rfl
    · next hmany => rw [callPeer, Lru.answer_of_dropped (q := call.lookup) hsize huses hnewer (not_lt.mp hmany)]; rfl
  · rw [callPeer, Lru.answer_of_new (q := call.lookup) hsize hnew]
    rfl
  · cases hanswer : Lru.answer maxsize (log.map Call.lookup) call.lookup with
    | error e =>
      rw [callPeer, hanswer] at hrequest
      cases hrequest
    | ok appName =>
      rw [callPeer, hanswer] at hrequest
      obtain ⟨q, hq, hkey, hcomputed⟩ := Lru.computed_of_answer hanswer
      obtain ⟨call', hcall', rfl⟩ := List.mem_map.mp (List.map_cons (f := Call.lookup) .. ▸ hq)
      refine ⟨appName, (Except.ok.inj hrequest).symm, call', hcall', hkey, ?_⟩
      have hkey' : call'.clientHost = call.clientHost := hkey
      rw [← hkey']
      exact has_of_getAppForIpAddress hcomputed

/-- The address of `notes` goes over to `wiki`. -/
def notesThenWiki : List Call × Call :=
  ([⟨"peer42", "api", "GET", "", "10.0.0.2", ⟨true, [⟨"notes", some "10.0.0.2"⟩]⟩⟩],
    ⟨"peer42", "api", "GET", "", "10.0.0.2", ⟨true, [⟨"wiki", some "10.0.0.2"⟩]⟩⟩)

/-- The call of `wiki` is still taken for one of `notes`. -/
theorem call_peer_attribution_moved :
    callPeer notesThenWiki.1 notesThenWiki.2 = .ok ⟨"GET", "https://notes.peer42.freeshard.cloud/api", ""⟩ := by
  rw [(call_peer_attribution notesThenWiki.1 notesThenWiki.2).1 [] "notes" [] (by decide +kernel) (by decide)]
  decide +kernel

end Freeshard.CallPeer
