import UnionFS.Proofs.Plan
import UnionFS.Proofs.Union.Listing

/-!
# What an operation on the union goes through

Every run of an operation is made of a few kinds of exchanges: a request to one server, a poll that
asks each server whether it is connected, and requests to servers that were found connected, to all
of them or to one after another until one succeeds.  Here is one lemma for each of the parts that
operations are made of, with what it asks and what it makes of the answers.
-/

namespace UnionFS

/-- What an operation asks, and the answer. -/
abbrev Exchange := (q : Inquiry) × q.Answer

namespace Exchange

/-- A server says whether it is connected. -/
abbrev ofFlag (flag : String × Bool) : Exchange := ⟨.connected flag.1, flag.2⟩

/-- A server answers a request. -/
abbrev ofReply {r : Request} (reply : String × Outcome r.Answer) : Exchange :=
  ⟨.request reply.1 r, reply.2⟩

end Exchange

namespace Union

variable {u : Union} {r : Request} {names up : List String} {exchanges : List Exchange}
  {server : String} {code : Code}

theorem goes_ask_iff {answer : Outcome r.Answer} :
    (ask server r).Goes exchanges answer ↔ exchanges = [⟨.request server r, answer⟩] :=
  Plan.goes_question_iff

theorem goes_connectedOf (h : (connectedOf names).Goes exchanges up) :
    ∃ flags : List (String × Bool), flags.map (·.1) = names
      ∧ exchanges = flags.map .ofFlag ∧ up = (flags.filter (·.2)).map (·.1) := by
  induction names generalizing exchanges up with
  | nil =>
      obtain ⟨rfl, rfl⟩ := Plan.goes_pure_iff.mp h
      exact ⟨[], rfl, rfl, rfl⟩
  | cons server rest ih =>
      obtain ⟨first, answer, others, rfl, hfirst, hothers⟩ := Plan.goes_bind_iff.mp h
      obtain ⟨up', hup', rfl⟩ := Plan.goes_map_iff.mp hothers
      obtain ⟨flags, hnames, rfl, rfl⟩ := ih hup'
      rw [Plan.goes_question_iff.mp hfirst]
      refine ⟨(server, answer) :: flags, ?_, rfl, ?_⟩
      · rw [List.map_cons, hnames]
      · cases answer <;> rfl

theorem goes_askEach {replies : List (String × Outcome r.Answer)}
    (h : (askEach (ask · r) names).Goes exchanges replies) :
    replies.map (·.1) = names ∧ exchanges = replies.map .ofReply := by
  induction names generalizing exchanges replies with
  | nil =>
      obtain ⟨rfl, rfl⟩ := Plan.goes_pure_iff.mp h
      exact ⟨rfl, rfl⟩
  | cons server rest ih =>
      obtain ⟨first, answer, others, rfl, hfirst, hothers⟩ := Plan.goes_bind_iff.mp h
      obtain ⟨replies', hreplies', rfl⟩ := Plan.goes_map_iff.mp hothers
      obtain ⟨hnames, rfl⟩ := ih hreplies'
      rw [goes_ask_iff.mp hfirst]
      exact ⟨congrArg (server :: ·) hnames, rfl⟩

theorem goes_tryEach {last : Code} {o : Outcome r.Answer}
    (h : (tryEach (ask · r) last names).Goes exchanges o) :
    ∃ replies : List (String × Outcome r.Answer),
      replies.map (·.1) <+: names ∧ exchanges = replies.map .ofReply := by
  induction names generalizing exchanges last with
  | nil =>
      obtain ⟨rfl, -⟩ := Plan.goes_pure_iff.mp h
      exact ⟨[], List.prefix_rfl, rfl⟩
  | cons server rest ih =>
      obtain ⟨first, answer, others, rfl, hfirst, hothers⟩ := Plan.goes_bind_iff.mp h
      rw [goes_ask_iff.mp hfirst]
      cases answer with
      | ok value =>
          -- nobody else is asked
          obtain ⟨rfl, -⟩ := Plan.goes_pure_iff.mp hothers
          exact ⟨[(server, .ok value)], ⟨rest, rfl⟩, rfl⟩
      | error c =>
          obtain ⟨replies, hnames, rfl⟩ := ih hothers
          refine ⟨(server, .error c) :: replies, ?_, rfl⟩
          exact List.cons_prefix_cons.mpr ⟨rfl, hnames⟩

/-! ## Servers that were found connected -/

/-- All servers are asked whether they are connected, and then those that are, in order and as far as
it goes, are sent the request. -/
def Spreads (u : Union) (r : Request) (exchanges : List Exchange)
    (replies : List (String × Outcome r.Answer)) : Prop :=
  ∃ flags : List (String × Bool), flags.map (·.1) = u.servers
    ∧ exchanges = flags.map .ofFlag ++ replies.map .ofReply
    ∧ replies.map (·.1) <+: (flags.filter (·.2)).map (·.1)

variable {replies : List (String × Outcome r.Answer)}

/-- Only servers of the union that say that they are connected are sent anything. -/
theorem Spreads.connected (h : u.Spreads r exchanges replies) {reply : String × Outcome r.Answer}
    (hreply : reply ∈ replies) :
    reply.1 ∈ u.servers ∧ ⟨.connected reply.1, true⟩ ∈ exchanges := by
  obtain ⟨flags, hnames, rfl, hasked⟩ := h
  have hup := hasked.subset (List.mem_map_of_mem hreply)
  obtain ⟨⟨server, flag⟩, hmem, hserver⟩ := List.mem_map.mp hup
  obtain ⟨hflag, htrue⟩ := List.mem_filter.mp hmem
  obtain rfl : flag = true := htrue
  rw [← hserver]
  constructor
  · rw [← hnames]
    exact List.mem_map_of_mem hflag
  · exact List.mem_append_left _ (List.mem_map.mpr ⟨_, hflag, rfl⟩)

theorem spreads_of_connected {first : List Exchange} (hup : u.connected.Goes first up)
    (hasked : replies.map (·.1) <+: up) :
    u.Spreads r (first ++ replies.map .ofReply) replies := by
  obtain ⟨flags, hnames, rfl, rfl⟩ := goes_connectedOf hup
  exact ⟨flags, hnames, rfl, hasked⟩

theorem goes_askConnected {o : Outcome (String × r.Answer)}
    (h : (u.askConnected (ask · r)).Goes exchanges o) :
    ∃ replies, u.Spreads r exchanges replies ∧ o = firstSuccess .notFound replies := by
  obtain ⟨first, up, rest, rfl, hup, hrest⟩ := Plan.goes_bind_iff.mp h
  obtain ⟨replies, hreplies, rfl⟩ := Plan.goes_map_iff.mp hrest
  obtain ⟨hasked, rfl⟩ := goes_askEach hreplies
  exact ⟨replies, spreads_of_connected hup (hasked ▸ List.prefix_rfl), rfl⟩

theorem firstSuccess_mem {α : Type} {last : Code} {answers : List (String × Outcome α)}
    {x : String × α} (h : firstSuccess last answers = .ok x) : (x.1, .ok x.2) ∈ answers := by
  induction answers generalizing last with
  | nil => cases h
  | cons a rest ih =>
      obtain ⟨server, answer⟩ := a
      cases answer with
      | ok value =>
          cases h
          exact List.mem_cons_self
      | error c => exact List.mem_cons_of_mem _ (ih h)

/-! ## Look-ups -/

section

variable {α : Type} {path p : String} {question : (server path : String) → UnionPlan (Outcome α)}
  {o : Outcome (String × α)}

theorem goes_lookup_of_tagged (hroute : u.route path = .tagged server p)
    (h : (u.lookup path question).Goes exchanges o) :
    ∃ answer, (question server p).Goes exchanges answer ∧ o = answer.map (server, ·) := by
  rw [lookup, hroute] at h
  exact Plan.goes_map_iff.mp h

theorem goes_lookup_of_unknown (hroute : u.route path = .unknown)
    (h : (u.lookup path question).Goes exchanges o) : exchanges = [] ∧ o = .error .notFound := by
  rw [lookup, hroute] at h
  exact Plan.goes_pure_iff.mp h

theorem goes_lookup_of_untagged (hroute : u.route path = .untagged p)
    (h : (u.lookup path question).Goes exchanges o) :
    (u.askConnected (question · p)).Goes exchanges o := by
  rw [lookup, hroute] at h
  exact h

end

/-! ## Opening and overwriting -/

section

variable {path p : String} {flags : UInt32} {data : Bytes} {opened : Outcome FileHandle}
  {handle : FileHandle} {o : Outcome (String × UInt64)}

theorem goes_openFile_of_tagged (hroute : u.route path = .tagged server p)
    (h : (u.openFile path flags).Goes exchanges opened) :
    ∃ answer : Outcome Unit, exchanges = [⟨.request server (.openFile p flags), answer⟩]
      ∧ opened = answer.map fun _ => ⟨server⟩ := by
  obtain ⟨found, hfound, rfl⟩ := Plan.goes_map_iff.mp h
  obtain ⟨answer, hanswer, rfl⟩ := goes_lookup_of_tagged hroute hfound
  refine ⟨answer, goes_ask_iff.mp hanswer, ?_⟩
  cases answer <;> rfl

theorem goes_openFile_of_unknown (hroute : u.route path = .unknown)
    (h : (u.openFile path flags).Goes exchanges opened) :
    exchanges = [] ∧ opened = .error .notFound := by
  obtain ⟨found, hfound, rfl⟩ := Plan.goes_map_iff.mp h
  obtain ⟨hnone, rfl⟩ := goes_lookup_of_unknown hroute hfound
  exact ⟨hnone, rfl⟩

theorem goes_openFile_of_untagged (hroute : u.route path = .untagged p)
    (h : (u.openFile path flags).Goes exchanges opened) :
    ∃ replies, u.Spreads (.openFile p flags) exchanges replies
      ∧ opened = (firstSuccess .notFound replies).map fun x => ⟨x.1⟩ := by
  obtain ⟨found, hfound, rfl⟩ := Plan.goes_map_iff.mp h
  obtain ⟨replies, hspreads, rfl⟩ := goes_askConnected (goes_lookup_of_untagged hroute hfound)
  exact ⟨replies, hspreads, rfl⟩

/-- With a tag it is the tag's server that opens the file. -/
theorem server_of_goes_openFile (htag : (Address.ofPath path).server ≠ "")
    (h : (u.openFile path flags).Goes exchanges (.ok handle)) :
    handle.server = (Address.ofPath path).server := by
  by_cases hmem : (Address.ofPath path).server ∈ u.servers
  · obtain ⟨answer, -, hopened⟩ := goes_openFile_of_tagged (route_of_mem htag hmem) h
    cases answer with
    | error c => cases hopened
    | ok value =>
        cases hopened
        rfl
  · cases (goes_openFile_of_unknown (route_of_not_mem htag hmem) h).2

/-- **A handle names a server of the union that has itself accepted to open the file.** -/
theorem accepted_of_goes_openFile (h : (u.openFile path flags).Goes exchanges (.ok handle)) :
    handle.server ∈ u.servers
      ∧ ⟨.request handle.server (.openFile (Address.ofPath path).path flags), .ok ()⟩
        ∈ exchanges := by
  by_cases htag : (Address.ofPath path).server = ""
  · obtain ⟨replies, hspreads, hopened⟩ := goes_openFile_of_untagged (route_of_untagged htag) h
    cases hfirst : firstSuccess .notFound replies with
    | error c =>
        rw [hfirst] at hopened
        cases hopened
    | ok x =>
        rw [hfirst] at hopened
        cases hopened
        have hmem := firstSuccess_mem hfirst
        refine ⟨(hspreads.connected hmem).1, ?_⟩
        obtain ⟨flags', -, rfl, -⟩ := hspreads
        exact List.mem_append_right _ (List.mem_map.mpr ⟨_, hmem, rfl⟩)
  · by_cases hmem : (Address.ofPath path).server ∈ u.servers
    · obtain ⟨answer, rfl, hopened⟩ := goes_openFile_of_tagged (route_of_mem htag hmem) h
      cases answer with
      | error c => cases hopened
      | ok value =>
          cases hopened
          exact ⟨hmem, List.mem_singleton.mpr rfl⟩
    · cases (goes_openFile_of_unknown (route_of_not_mem htag hmem) h).2

/-- What overwriting a file on the server that has accepted to open it goes through. -/
inductive Overwrites (server p : String) (data : Bytes) :
    List Exchange → Outcome (String × UInt64) → Prop where
  | lost {code : Code} :
    Overwrites server p data [⟨.request server (.getattr p), .error code⟩] (.error code)
  /-- A file that is longer than the data is left alone. -/
  | longer {stat : Stat} : data.length < stat.size.toNat →
    Overwrites server p data [⟨.request server (.getattr p), .ok stat⟩] (.error .notSupported)
  | refused {stat : Stat} {code : Code} : stat.size.toNat ≤ data.length →
    Overwrites server p data [⟨.request server (.getattr p), .ok stat⟩,
      ⟨.request server (.write p data 0), .error code⟩] (.error code)
  | written {stat : Stat} {count : UInt64} : stat.size.toNat ≤ data.length →
    Overwrites server p data [⟨.request server (.getattr p), .ok stat⟩,
      ⟨.request server (.write p data 0), .ok count⟩] (.ok (server, count))

/-- **Overwriting a file**: it is opened, and what follows is done on the server that accepted. -/
theorem goes_replace (h : (u.replace path data).Goes exchanges o) :
    ∃ first opened rest, exchanges = first ++ rest
      ∧ (u.openFile path OpenFlags.writeOnly).Goes first opened
      ∧ match opened with
        | .error code => rest = [] ∧ o = .error code
        | .ok handle => Overwrites handle.server (Address.ofPath path).path data rest o := by
  obtain ⟨first, opened, rest, rfl, hopened, hrest⟩ := Plan.goes_bind_iff.mp h
  refine ⟨first, opened, rest, rfl, hopened, ?_⟩
  cases opened with
  | error code => exact Plan.goes_pure_iff.mp hrest
  | ok handle =>
      obtain ⟨asked, current, others, rfl, hasked, hothers⟩ := Plan.goes_bind_iff.mp hrest
      obtain rfl := goes_ask_iff.mp hasked
      cases current with
      | error code =>
          obtain ⟨rfl, rfl⟩ := Plan.goes_pure_iff.mp hothers
          exact .lost
      | ok stat =>
          dsimp only at hothers ⊢
          by_cases hlonger : data.length < stat.size.toNat
          · rw [if_pos hlonger] at hothers
            obtain ⟨rfl, rfl⟩ := Plan.goes_pure_iff.mp hothers
            exact .longer hlonger
          · rw [if_neg hlonger] at hothers
            obtain ⟨wrote, answer, others, rfl, hwrote, hend⟩ := Plan.goes_bind_iff.mp hothers
            obtain rfl := goes_ask_iff.mp hwrote
            cases answer with
            | error code =>
                obtain ⟨rfl, rfl⟩ := Plan.goes_pure_iff.mp hend
                exact .refused (Nat.not_lt.mp hlonger)
            | ok count =>
                obtain ⟨rfl, rfl⟩ := Plan.goes_pure_iff.mp hend
                exact .written (Nat.not_lt.mp hlonger)

end

end Union
end UnionFS
