import UnionFS.Proofs.Network.Remote

/-!
# Fleets over remotes apart

What a plan comes to on a fleet whose servers are each on a machine of their own.  A request to one
server has to do with that server's connection and remote, and leaves all others as they are
(`answer_request`).
-/

namespace UnionFS.Client.Fleet

variable {L : Type}

theorem peer_of_find? {fleet : Fleet L} {name : String} {c : Connection L}
    (h : fleet.find? name = some c) : c.peer.hostname = name := by
  have := List.find?_some h
  simpa using this

/-- A changed connection is the only one that changes. -/
theorem find?_update_of_ne (fleet : Fleet L) (c : Connection L) {name : String}
    (h : name ≠ c.peer.hostname) : (fleet.update c).find? name = fleet.find? name := by
  -- looking for the name finds the same connections, changed or not
  have hother : ∀ other : Connection L,
      (if other.peer.hostname == c.peer.hostname then c else other).peer.hostname == name ↔
        other.peer.hostname == name := by
    intro other
    split
    · next hsame =>
      rw [beq_iff_eq] at hsame
      rw [hsame]
    · exact Iff.rfl
  have hpred : (fun other : Connection L => other.peer.hostname == name) ∘
      (fun other => if other.peer.hostname == c.peer.hostname then c else other) =
      fun other => other.peer.hostname == name :=
    funext fun other => Bool.eq_iff_iff.mpr (hother other)
  rw [Fleet.update, Fleet.find?, List.find?_map, hpred]
  show (fleet.find? name).map _ = fleet.find? name
  cases hfound : fleet.find? name with
  | none => rfl
  | some other =>
      have hne : ¬ (other.peer.hostname == c.peer.hostname) = true := by
        rw [peer_of_find? hfound, beq_iff_eq]
        exact h
      exact congrArg some (if_neg hne)

/-- What a plan comes to on a fleet over remotes apart. -/
def onRemotes {α : Type} (p : UnionPlan α) (fleet : Fleet String) (remotes : String → Remote) :
    (α × Fleet String) × (String → Remote) :=
  p.run (m := StateT (Fleet String) (StateM (String → Remote)))
    (answer Remote.carrier.apart) fleet remotes

variable {α β : Type} {fleet : Fleet String} {remotes : String → Remote}

theorem onRemotes_ask (q : Inquiry) (next : q.Answer → UnionPlan α) :
    onRemotes (.ask q next) fleet remotes =
      (let x := answer Remote.carrier.apart q fleet remotes
       onRemotes (next x.1.1) x.1.2 x.2) := rfl

theorem onRemotes_request (server : String) (r : Request) :
    onRemotes (Union.ask server r) fleet remotes =
      answer Remote.carrier.apart (.request server r) fleet remotes := rfl

theorem onRemotes_bind (p : UnionPlan α) (k : α → UnionPlan β) :
    onRemotes (p.bind k) fleet remotes =
      (let x := onRemotes p fleet remotes
       onRemotes (k x.1.1) x.1.2 x.2) := by
  rw [onRemotes, Plan.run_bind]
  rfl

/-- Finding out who is connected changes nothing. -/
theorem onRemotes_connectedOf (names : List String) :
    onRemotes (Union.connectedOf names) fleet remotes =
      ((names.filter fun name => (fleet.find? name).any (·.connected), fleet), remotes) := by
  induction names with
  | nil => rfl
  | cons name rest ih =>
    show onRemotes (.ask (.connected name) fun up =>
      (Union.connectedOf rest).bind fun others => .done (if up then name :: others else others))
      fleet remotes = _
    rw [onRemotes_ask]
    show onRemotes ((Union.connectedOf rest).bind _) fleet remotes = _
    rw [onRemotes_bind, ih, List.filter_cons]
    rfl

/-- What a request to one server comes to, and its remote after it. -/
def attempt (fleet : Fleet String) (remotes : String → Remote) (name : String) (r : Request) :
    Outcome r.Answer × Remote :=
  match fleet.find? name with
  | none => (.error .notConnected, remotes name)
  | some c =>
    let x := c.request Remote.carrier r (remotes name)
    (x.1.1, x.2)

/-- **A request has to do with the server it goes to, and with no other.** -/
theorem answer_request {name : String} (remotes : String → Remote) (r : Request)
    (hown : ∀ c, fleet.find? name = some c → c.Holds name) :
    ∃ fleet' : Fleet String,
      answer Remote.carrier.apart (.request name r) fleet remotes =
        (((fleet.attempt remotes name r).1, fleet'),
          Function.update remotes name (fleet.attempt remotes name r).2)
      ∧ ∀ other, other ≠ name → fleet'.find? other = fleet.find? other := by
  rw [answer, onServer, attempt]
  cases hfound : fleet.find? name with
  | none =>
      refine ⟨fleet, ?_, fun _ _ => rfl⟩
      dsimp only
      rw [Function.update_eq_self]
      rfl
  | some c =>
      have hkeeps := Connection.keeps_request Remote.carrier c r (remotes name)
      have hpeer : (c.request Remote.carrier r (remotes name)).1.2.peer.hostname = name := by
        rw [hkeeps.peer]
        exact peer_of_find? hfound
      refine ⟨fleet.update (c.request Remote.carrier r (remotes name)).1.2, ?_, ?_⟩
      · dsimp only
        rw [stateM_bind_apply, Connection.request_apart (hown c hfound)]
        rfl
      · intro other hne
        exact find?_update_of_ne fleet _ (by rw [hpeer]; exact hne)

end UnionFS.Client.Fleet
