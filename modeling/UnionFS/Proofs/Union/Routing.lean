import UnionFS.Proofs.Union.Runs

/-!
# Routing

What is asked of whom.  A tag goes before a handle, and a handle before what servers say: a path with
a tag is for the tag's server alone, which is given the path without the tag; without a tag, a read
or a write with a handle is for the handle's server alone; and all else is for the servers that have
said that they are connected (`Routing`).

Every operation finds its way by itself, and overwriting, which opens a file first, goes on from the
handle.  The proof follows that: what each request goes through in each of the four cases
(`goes_perform_of_tagged` and the three beside it), then what each operation does, and nothing is
said of the answers.
-/

namespace UnionFS

namespace Request

/-- The same request for another path. -/
def withPath : (r : Request) → String → Request
  | getattr _, path => getattr path
  | access _ mask, path => access path mask
  | readdir _, path => readdir path
  | read _ size offset, path => read path size offset
  | write _ data offset, path => write path data offset
  | openFile _ flags, path => openFile path flags

theorem path_withPath (r : Request) (path : String) : (r.withPath path).path = path := by
  cases r <;> rfl

end Request

/-- What can be done with a path on a union; a handle tells which server a file was opened on. -/
inductive Operation where
  | request (r : Request) (handle : Option FileHandle)
  | replace (path : String) (data : Bytes)

namespace Operation

def path : Operation → String
  | request r _ => r.path
  | replace path _ => path

/-- What an operation gives if it is not refused. -/
abbrev Answer : Operation → Type
  | request r _ => r.Answer
  | replace _ _ => String × UInt64

def plan (u : Union) : (o : Operation) → UnionPlan (Outcome o.Answer)
  | request r handle => u.perform handle r
  | replace path data => u.replace path data

/-- The requests that the operation makes to a server, one after another, as long as none fails. -/
def steps : Operation → String → List Request
  | request r _, path => [r.withPath path]
  | replace _ data, path =>
    [.openFile path OpenFlags.writeOnly, .getattr path, .write path data 0]

/-- The handle, where the operation goes by it. -/
def handle? : Operation → Option FileHandle
  | request (.read _ _ _) handle | request (.write _ _ _) handle => handle
  | _ => none

/-- All requests are for the one path. -/
theorem path_steps {o : Operation} {path : String} {r : Request} (h : r ∈ o.steps path) :
    r.path = path := by
  cases o with
  | request r' handle =>
      rw [List.mem_singleton.mp h]
      exact r'.path_withPath path
  | replace p data =>
      rcases List.mem_cons.mp h with rfl | h
      · rfl
      rcases List.mem_cons.mp h with rfl | h
      · rfl
      · rw [List.mem_singleton.mp h]
        rfl

/-- What goes by a handle is one request, and is made if anything is. -/
theorem steps_eq_of_handle (o : Operation) {handle : FileHandle} {path : String}
    {made : List Request} (hhandle : o.handle? = some handle) (hne : made ≠ [])
    (hfront : made <+: o.steps path) : made = o.steps path := by
  cases o with
  | request r h =>
      rcases List.prefix_cons_iff.mp hfront with hnil | ⟨rest, rfl, hrest⟩
      · exact absurd hnil hne
      · rw [List.prefix_nil.mp hrest]
        rfl
  | replace path data => cases hhandle

end Operation

namespace Union

variable {u : Union} {r : Request} {path p server : String} {handle : Option FileHandle}
  {exchanges : List Exchange}

/-! ## Requests -/

variable {o : Outcome r.Answer}

/-- A request for a path with a tag is made to the tag's server, once. -/
theorem goes_perform_of_tagged (hroute : u.route r.path = .tagged server p)
    (h : (u.perform handle r).Goes exchanges o) :
    ∃ answer, exchanges = [⟨.request server (r.withPath p), answer⟩] := by
  cases r with
  | getattr path =>
      obtain ⟨found, hfound, -⟩ := Plan.goes_map_iff.mp h
      obtain ⟨answer, hanswer, -⟩ := goes_lookup_of_tagged hroute hfound
      exact ⟨answer, goes_ask_iff.mp hanswer⟩
  | access path mask =>
      obtain ⟨found, hfound, -⟩ := Plan.goes_map_iff.mp h
      obtain ⟨answer, hanswer, -⟩ := goes_lookup_of_tagged hroute hfound
      exact ⟨answer, goes_ask_iff.mp hanswer⟩
  | openFile path flags =>
      obtain ⟨opened, hopened, -⟩ := Plan.goes_map_iff.mp h
      obtain ⟨answer, hexchanges, -⟩ := goes_openFile_of_tagged hroute hopened
      exact ⟨answer, hexchanges⟩
  | readdir path =>
      rw [perform, readdir, show u.route path = _ from hroute] at h
      exact ⟨o, goes_ask_iff.mp h⟩
  | read path size offset =>
      rw [perform, read, show u.route path = _ from hroute] at h
      exact ⟨o, goes_ask_iff.mp h⟩
  | write path data offset =>
      rw [perform, write, show u.route path = _ from hroute] at h
      exact ⟨o, goes_ask_iff.mp h⟩

/-- For a path whose tag names no server nobody is asked anything. -/
theorem goes_perform_of_unknown (hroute : u.route r.path = .unknown)
    (h : (u.perform handle r).Goes exchanges o) : exchanges = [] ∧ o = .error .notFound := by
  cases r with
  | getattr path =>
      obtain ⟨found, hfound, rfl⟩ := Plan.goes_map_iff.mp h
      obtain ⟨hnone, rfl⟩ := goes_lookup_of_unknown hroute hfound
      exact ⟨hnone, rfl⟩
  | access path mask =>
      obtain ⟨found, hfound, rfl⟩ := Plan.goes_map_iff.mp h
      obtain ⟨hnone, rfl⟩ := goes_lookup_of_unknown hroute hfound
      exact ⟨hnone, rfl⟩
  | openFile path flags =>
      obtain ⟨opened, hopened, rfl⟩ := Plan.goes_map_iff.mp h
      obtain ⟨hnone, rfl⟩ := goes_openFile_of_unknown hroute hopened
      exact ⟨hnone, rfl⟩
  | readdir path =>
      rw [perform, readdir, show u.route path = _ from hroute] at h
      exact Plan.goes_pure_iff.mp h
  | read path size offset =>
      rw [perform, read, show u.route path = _ from hroute] at h
      exact Plan.goes_pure_iff.mp h
  | write path data offset =>
      rw [perform, write, show u.route path = _ from hroute] at h
      exact Plan.goes_pure_iff.mp h

/-- A request that goes by a handle is made to the handle's server, once. -/
theorem goes_perform_of_held (hroute : u.route r.path = .untagged p)
    (hheld : u.holder? (Operation.request r handle).handle? = some server)
    (h : (u.perform handle r).Goes exchanges o) :
    ∃ answer, exchanges = [⟨.request server (r.withPath p), answer⟩] := by
  cases r with
  | read path size offset =>
      rw [perform, read, show u.route path = _ from hroute] at h
      dsimp only at h
      rw [show u.holder? handle = some server from hheld] at h
      exact ⟨o, goes_ask_iff.mp h⟩
  | write path data offset =>
      rw [perform, write, show u.route path = _ from hroute] at h
      dsimp only at h
      rw [show u.holder? handle = some server from hheld] at h
      exact ⟨o, goes_ask_iff.mp h⟩
  -- the others do not go by a handle
  | _ => cases hheld

/-- Any other request is made to servers that were found connected. -/
theorem goes_perform_of_free (hroute : u.route r.path = .untagged p)
    (hfree : u.holder? (Operation.request r handle).handle? = none)
    (h : (u.perform handle r).Goes exchanges o) :
    ∃ replies, u.Spreads (r.withPath p) exchanges replies := by
  cases r with
  | getattr path =>
      obtain ⟨found, hfound, -⟩ := Plan.goes_map_iff.mp h
      obtain ⟨replies, hspreads, -⟩ := goes_askConnected (goes_lookup_of_untagged hroute hfound)
      exact ⟨replies, hspreads⟩
  | access path mask =>
      obtain ⟨found, hfound, -⟩ := Plan.goes_map_iff.mp h
      obtain ⟨replies, hspreads, -⟩ := goes_askConnected (goes_lookup_of_untagged hroute hfound)
      exact ⟨replies, hspreads⟩
  | openFile path flags =>
      obtain ⟨opened, hopened, -⟩ := Plan.goes_map_iff.mp h
      obtain ⟨replies, hspreads, -⟩ := goes_openFile_of_untagged hroute hopened
      exact ⟨replies, hspreads⟩
  | readdir path =>
      rw [perform, readdir, show u.route path = _ from hroute] at h
      obtain ⟨first, up, rest, rfl, hup, hrest⟩ := Plan.goes_bind_iff.mp h
      obtain ⟨replies, hreplies, -⟩ := Plan.goes_map_iff.mp hrest
      obtain ⟨hasked, rfl⟩ := goes_askEach hreplies
      exact ⟨replies, spreads_of_connected hup (hasked ▸ List.prefix_rfl)⟩
  | read path size offset =>
      rw [perform, read, show u.route path = _ from hroute] at h
      dsimp only at h
      rw [show u.holder? handle = none from hfree] at h
      obtain ⟨found, hfound, -⟩ := Plan.goes_map_iff.mp h
      obtain ⟨replies, hspreads, -⟩ := goes_askConnected hfound
      exact ⟨replies, hspreads⟩
  | write path data offset =>
      rw [perform, write, show u.route path = _ from hroute] at h
      dsimp only at h
      rw [show u.holder? handle = none from hfree] at h
      obtain ⟨first, up, rest, rfl, hup, hrest⟩ := Plan.goes_bind_iff.mp h
      -- a write stops where it succeeds
      obtain ⟨replies, hasked, rfl⟩ := goes_tryEach hrest
      exact ⟨replies, spreads_of_connected hup hasked⟩

/-! ## Operations -/

variable {o : Operation} {result : Outcome o.Answer}

theorem holder?_eq_some_iff :
    u.holder? handle = some server ↔ ∃ h, handle = some h ∧ h.server = server ∧ server ∈ u.servers := by
  rw [holder?, Option.filter_eq_some_iff, Option.map_eq_some_iff]
  constructor
  · rintro ⟨⟨h, rfl, rfl⟩, hmem⟩
    exact ⟨h, rfl, rfl, by simpa using hmem⟩
  · rintro ⟨h, rfl, rfl, hmem⟩
    exact ⟨⟨h, rfl, rfl⟩, by simpa using hmem⟩

theorem holder?_eq_none (h : ∀ f, handle = some f → f.server ∉ u.servers) :
    u.holder? handle = none := by
  cases hholder : u.holder? handle with
  | none => rfl
  | some server =>
      obtain ⟨f, hf, rfl, hmem⟩ := holder?_eq_some_iff.mp hholder
      exact absurd hmem (h f hf)

/-- What follows the opening of a file that is overwritten goes to one server. -/
theorem Overwrites.steps {data : Bytes} {result : Outcome (String × UInt64)}
    (h : Overwrites server p data exchanges result) :
    ∃ made, made <+: [.getattr p, .write p data 0]
      ∧ exchanges.map (·.1) = made.map (.request server) := by
  cases h with
  | lost | longer => exact ⟨[.getattr p], ⟨[.write p data 0], rfl⟩, rfl⟩
  | refused | written => exact ⟨[.getattr p, .write p data 0], List.prefix_rfl, rfl⟩

/-- With a tag, what is done is the operation's steps on the tag's server, up to one that fails. -/
theorem goes_plan_of_tagged (htag : (Address.ofPath o.path).server ≠ "")
    (hmem : (Address.ofPath o.path).server ∈ u.servers) (h : (o.plan u).Goes exchanges result) :
    ∃ made, made ≠ [] ∧ made <+: o.steps (Address.ofPath o.path).path
      ∧ exchanges.map (·.1) = made.map (.request (Address.ofPath o.path).server) := by
  have hroute := route_of_mem htag hmem
  cases o with
  | request r handle =>
      obtain ⟨answer, rfl⟩ := goes_perform_of_tagged hroute h
      exact ⟨[_], List.cons_ne_nil _ _, List.prefix_rfl, rfl⟩
  | replace path data =>
      obtain ⟨first, opened, rest, rfl, hopened, hrest⟩ := goes_replace h
      obtain ⟨answer, rfl, rfl⟩ := goes_openFile_of_tagged hroute hopened
      cases answer with
      | error code =>
          -- it ends with the opening
          obtain ⟨rfl, -⟩ := hrest
          exact ⟨[_], List.cons_ne_nil _ _, ⟨_, rfl⟩, rfl⟩
      | ok value =>
          obtain ⟨made, hmade, hcalls⟩ := Overwrites.steps hrest
          refine ⟨.openFile _ _ :: made, List.cons_ne_nil _ _,
            List.cons_prefix_cons.mpr ⟨rfl, hmade⟩, ?_⟩
          exact congrArg (List.cons _) hcalls

theorem goes_plan_of_unknown (htag : (Address.ofPath o.path).server ≠ "")
    (hmem : (Address.ofPath o.path).server ∉ u.servers) (h : (o.plan u).Goes exchanges result) :
    exchanges = [] ∧ result = .error .notFound := by
  have hroute := route_of_not_mem htag hmem
  cases o with
  | request r handle => exact goes_perform_of_unknown hroute h
  | replace path data =>
      obtain ⟨first, opened, rest, rfl, hopened, hrest⟩ := goes_replace h
      obtain ⟨rfl, rfl⟩ := goes_openFile_of_unknown hroute hopened
      obtain ⟨rfl, rfl⟩ := hrest
      exact ⟨rfl, rfl⟩

theorem goes_plan_of_held (htag : (Address.ofPath o.path).server = "")
    (hheld : u.holder? o.handle? = some server) (h : (o.plan u).Goes exchanges result) :
    exchanges.map (·.1) = (o.steps (Address.ofPath o.path).path).map (.request server) := by
  cases o with
  | request r handle =>
      obtain ⟨answer, rfl⟩ := goes_perform_of_held (route_of_untagged htag) hheld h
      rfl
  | replace path data => cases hheld

/-- The requests that are made to servers that were found connected. -/
theorem Spreads.requests {replies : List (String × Outcome r.Answer)}
    (h : u.Spreads r exchanges replies) :
    ∃ made : List (String × Request), exchanges.map (·.1) =
        u.servers.map .connected ++ made.map (fun m => .request m.1 m.2)
      ∧ ∀ m ∈ made, (m.1 ∈ u.servers ∧ ⟨.connected m.1, true⟩ ∈ exchanges) ∧ m.2 = r := by
  refine ⟨replies.map fun reply => (reply.1, r), ?_, fun m hm => ?_⟩
  · obtain ⟨flags, hnames, rfl, -⟩ := h
    rw [← hnames, List.map_append, List.map_map, List.map_map, List.map_map, List.map_map]
    rfl
  · obtain ⟨reply, hreply, rfl⟩ := List.mem_map.mp hm
    exact ⟨h.connected hreply, rfl⟩

theorem goes_plan_of_free (htag : (Address.ofPath o.path).server = "")
    (hfree : u.holder? o.handle? = none) (h : (o.plan u).Goes exchanges result) :
    ∃ made : List (String × Request), exchanges.map (·.1) =
        u.servers.map .connected ++ made.map (fun m => .request m.1 m.2)
      ∧ ∀ m ∈ made, (m.1 ∈ u.servers ∧ ⟨.connected m.1, true⟩ ∈ exchanges)
        ∧ m.2 ∈ o.steps (Address.ofPath o.path).path := by
  have hroute := route_of_untagged (u := u) htag
  cases o with
  | request r handle =>
      obtain ⟨replies, hspreads⟩ := goes_perform_of_free hroute hfree h
      obtain ⟨made, hcalls, hmade⟩ := hspreads.requests
      exact ⟨made, hcalls, fun m hm => ⟨(hmade m hm).1, List.mem_singleton.mpr (hmade m hm).2⟩⟩
  | replace path data =>
      obtain ⟨first, opened, rest, rfl, hopened, hrest⟩ := goes_replace h
      obtain ⟨replies, hspreads, rfl⟩ := goes_openFile_of_untagged hroute hopened
      obtain ⟨made, hcalls, hmade⟩ := hspreads.requests
      have hopening (m : String × Request) (hm : m ∈ made) :
          (m.1 ∈ u.servers ∧ ⟨.connected m.1, true⟩ ∈ first ++ rest)
            ∧ m.2 ∈ (Operation.replace path data).steps (Address.ofPath path).path := by
        obtain ⟨⟨hmem, hup⟩, heq⟩ := hmade m hm
        exact ⟨⟨hmem, List.mem_append_left _ hup⟩, heq ▸ List.mem_cons_self⟩
      cases hfirst : firstSuccess .notFound replies with
      | error code =>
          rw [hfirst] at hrest
          obtain ⟨rfl, -⟩ := hrest
          exact ⟨made, by rw [List.append_nil, hcalls], hopening⟩
      | ok x =>
          rw [hfirst] at hrest
          -- what follows goes to the server that succeeded, which was found connected
          obtain ⟨more, hmore, hmorecalls⟩ := Overwrites.steps hrest
          obtain ⟨hmem, hup⟩ := hspreads.connected (firstSuccess_mem hfirst)
          refine ⟨made ++ more.map (x.1, ·), ?_, fun m hm => ?_⟩
          · rw [List.map_append, hcalls, hmorecalls, List.map_append, List.map_map,
              List.append_assoc]
            rfl
          · rcases List.mem_append.mp hm with hm | hm
            · exact hopening m hm
            · obtain ⟨r, hr, rfl⟩ := List.mem_map.mp hm
              exact ⟨⟨hmem, List.mem_append_left _ hup⟩,
                List.mem_cons_of_mem _ (hmore.subset hr)⟩

/-- **What an operation does with a tag, a handle or neither.** -/
structure Routing {S : Type} (u : Union) (answer : (q : Inquiry) → S → q.Answer × S) (s : S) :
    Prop where
  /-- The tag's server is asked, for the path without the tag, and nobody else. -/
  tagged : ∀ o : Operation, (Address.ofPath o.path).server ≠ "" →
    (Address.ofPath o.path).server ∈ u.servers →
      ∃ made, made ≠ [] ∧ made <+: o.steps (Address.ofPath o.path).path
        ∧ (o.plan u).calls answer s = made.map (.request (Address.ofPath o.path).server)
  /-- Where there is no such server, nobody is asked. -/
  unknown : ∀ o : Operation, (Address.ofPath o.path).server ≠ "" →
    (Address.ofPath o.path).server ∉ u.servers →
      (o.plan u).calls answer s = [] ∧ (o.plan u).outcome answer s = (.error .notFound, s)
  /-- Without a tag, a read or a write by a handle asks the handle's server, and nobody else. -/
  held : ∀ (o : Operation) (handle : FileHandle), (Address.ofPath o.path).server = "" →
    o.handle? = some handle → handle.server ∈ u.servers →
      (o.plan u).calls answer s =
        (o.steps (Address.ofPath o.path).path).map (.request handle.server)
  /-- Without either, requests are made to servers that have said that they are connected. -/
  spread : ∀ o : Operation, (Address.ofPath o.path).server = "" →
    (∀ handle, o.handle? = some handle → handle.server ∉ u.servers) →
      ∃ made : List (String × Request),
        (o.plan u).calls answer s =
            u.servers.map .connected ++ made.map (fun m => .request m.1 m.2)
          ∧ ∀ m ∈ made, m.1 ∈ u.servers
            ∧ ⟨.connected m.1, true⟩ ∈ (o.plan u).transcript answer s
            ∧ m.2 ∈ o.steps (Address.ofPath o.path).path
            ∧ m.2.path = (Address.ofPath o.path).path
  /-- A handle is given for a server that has itself accepted to open the file. -/
  opened : ∀ path flags handle, ((u.openFile path flags).outcome answer s).1 = .ok handle →
    handle.server ∈ u.servers
      ∧ ⟨.request handle.server (.openFile (Address.ofPath path).path flags), .ok ()⟩ ∈
        (u.openFile path flags).transcript answer s
  /-- And whatever comes in between, what is read or written by it for the same path is read or
  written there. -/
  reused : ∀ path flags handle, ((u.openFile path flags).outcome answer s).1 = .ok handle →
    ∀ o : Operation, o.path = path → o.handle? = some handle → ∀ later : S,
      (o.plan u).calls answer later =
        (o.steps (Address.ofPath path).path).map (.request handle.server)

/-- **Every operation of every union routes in this way, whatever the servers answer.** -/
theorem routing {S : Type} (u : Union) (answer : (q : Inquiry) → S → q.Answer × S) (s : S) :
    u.Routing answer s where
  tagged o htag hmem := by
    rw [← Plan.map_fst_transcript]
    exact goes_plan_of_tagged htag hmem (Plan.goes_transcript answer (o.plan u) s)
  unknown o htag hmem := by
    obtain ⟨hnone, hresult⟩ :=
      goes_plan_of_unknown htag hmem (Plan.goes_transcript answer (o.plan u) s)
    have hcalls : (o.plan u).calls answer s = [] := by
      rw [← Plan.map_fst_transcript, hnone]
      rfl
    obtain ⟨a, -, houtcome⟩ := Plan.outcome_of_calls_eq_nil hcalls
    rw [houtcome] at hresult ⊢
    exact ⟨hcalls, congrArg (·, s) hresult⟩
  held o handle htag hhandle hmem := by
    have hheld : u.holder? o.handle? = some handle.server :=
      holder?_eq_some_iff.mpr ⟨handle, hhandle, rfl, hmem⟩
    rw [← Plan.map_fst_transcript]
    exact goes_plan_of_held htag hheld (Plan.goes_transcript answer (o.plan u) s)
  spread o htag hfree := by
    obtain ⟨made, hcalls, hmade⟩ := goes_plan_of_free htag (holder?_eq_none hfree)
      (Plan.goes_transcript answer (o.plan u) s)
    rw [← Plan.map_fst_transcript]
    refine ⟨made, hcalls, fun m hm => ?_⟩
    obtain ⟨⟨hmem, hup⟩, hstep⟩ := hmade m hm
    exact ⟨hmem, hup, hstep, Operation.path_steps hstep⟩
  opened path flags handle h := by
    have hgoes := Plan.goes_transcript answer (u.openFile path flags) s
    rw [h] at hgoes
    exact accepted_of_goes_openFile hgoes
  reused path flags handle h o hpath hhandle later := by
    have hopened := Plan.goes_transcript answer (u.openFile path flags) s
    rw [h] at hopened
    obtain ⟨hmem, -⟩ := accepted_of_goes_openFile hopened
    have hgoes := Plan.goes_transcript answer (o.plan u) later
    rw [← Plan.map_fst_transcript, ← hpath]
    by_cases htag : (Address.ofPath o.path).server = ""
    · exact goes_plan_of_held htag (holder?_eq_some_iff.mpr ⟨handle, hhandle, rfl, hmem⟩) hgoes
    · -- the tag led to the same server before
      have hserver : handle.server = (Address.ofPath o.path).server := by
        rw [hpath] at htag ⊢
        exact server_of_goes_openFile htag hopened
      rw [hserver] at hmem ⊢
      obtain ⟨made, hne, hfront, hcalls⟩ := goes_plan_of_tagged htag hmem hgoes
      rw [hcalls, o.steps_eq_of_handle hhandle hne hfront]

end Union
end UnionFS
