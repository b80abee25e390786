import UnionFS.Client.Launch
import UnionFS.Proofs.Client.Streams
import UnionFS.Proofs.Keys.Peers
import UnionFS.Proofs.Union.Verdicts

/-!
# One connection for each host

A host is the identity of a server, and there are two places where peers meet: in a key directory,
and in the list that a fleet is launched with.  In both the first of each host counts, so that a
fleet has one connection for each host that it is given, with one keepalive loop, and its union has
one server of the name (`launches`).

What is loaded from a directory has each host once by then, and all of it is launched
(`one_for_each_host`).
-/

namespace UnionFS.Client

variable {S L τ ι : Type}

namespace Connection

/-- Connecting, whether it succeeds or not, leaves a connection to the same peer. -/
theorem peer_connect (net : Carrier (StateM S) L) (c : Connection L) (s : S) :
    (c.connect net s).1.2.peer = c.peer ∧ (c.connect net s).1.2.config = c.config := by
  rw [connect]
  split
  · exact ⟨rfl, rfl⟩
  rw [stateM_bind_apply]
  rcases net.dial c.peer.address s with ⟨failure | line, s'⟩
  · cases failure <;> exact ⟨rfl, rfl⟩
  dsimp only
  rw [stateM_bind_apply]
  rcases net.converse line (shakeHands c.peer.key) s' with ⟨e | reply, s''⟩
  · exact ⟨rfl, rfl⟩
  cases reply with
  | rejected reason => exact ⟨rfl, rfl⟩
  | accepted =>
      dsimp only
      cases c.line with
      | none => exact ⟨rfl, rfl⟩
      | some old => exact ⟨rfl, rfl⟩

end Connection

namespace Fleet

variable {net : Carrier (StateM S) L} {config : ClientConfig} {peers : List Peer} {s : S}

/-- There is a connection for each peer, in their order. -/
theorem map_connectEach (net : Carrier (StateM S) L) (config : ClientConfig) (peers : List Peer)
    (s : S) : ((connectEach net config peers) s).1.map (fun c => (c.peer, c.config)) =
      peers.map (·, config) := by
  induction peers generalizing s with
  | nil => rfl
  | cons peer rest ih =>
      have hpeer := Connection.peer_connect net { peer, config } s
      rw [connectEach, stateM_bind_apply]
      exact congrArg₂ List.cons (Prod.ext hpeer.1 hpeer.2) (ih _)

/-! ## Launching -/

variable [DecidableEq τ] [DecidableEq ι]

/-- What a fleet is launched as. -/
structure Launches (config : ClientConfig) (peers : List Peer) (names : Union)
    (members : List (Shared (User τ ι) L Unit)) : Prop where
  /-- A server is registered exactly if some peer is of its host. -/
  registered : ∀ host, host ∈ names.servers ↔ ∃ p ∈ peers, p.hostname = host
  /-- There is one connection for each server that is registered. -/
  one_each : (members.map (·.connection.peer.hostname)).Perm names.servers
  /-- It is to the first peer of the host, and as it is configured. -/
  first : ∀ s ∈ members,
    peers.find? (·.hostname == s.connection.peer.hostname) = some s.connection.peer
      ∧ s.connection.config = config
  /-- The connections are in the order of the peers. -/
  ordered : (members.map (·.connection.peer)).Sublist peers
  /-- Each has its keepalive loop, which has begun, and nobody else uses it yet. -/
  tended : ∀ s ∈ members, s.holder = none
    ∧ s.callers .loop = .busy .keepalive (.keepalive s.connection.peer)
    ∧ ∀ user, user ≠ .loop → s.callers user = .idle
  /-- Where no host occurs twice there is a connection for every peer. -/
  all : (peers.map (·.hostname)).Nodup → members.map (·.connection.peer) = peers

variable (τ ι) (net : Carrier (StateM S) L) (config : ClientConfig) (peers : List Peer) (s : S)

/-- What is registered are the hosts of the peers that count. -/
theorem names_launch : ((launch τ ι net config peers) s).1.1 =
    Union.addEach ⟨[], .nil⟩ ((firstsBy (·.hostname) peers).map (·.hostname)) := by
  rw [Union.addEach, List.foldl_map]
  rfl

/-- What is connected are the peers that count, each with its loop. -/
theorem members_launch : ((launch τ ι net config peers) s).1.2 =
    ((connectEach net config (firstsBy (·.hostname) peers)) s).1.map (·.tended τ ι) := rfl

theorem peers_launch : ((launch τ ι net config peers) s).1.2.map
    (fun x => (x.connection.peer, x.connection.config)) =
      (firstsBy (·.hostname) peers).map (·, config) := by
  rw [members_launch, List.map_map]
  exact map_connectEach net config _ s

/-- **A fleet has one connection for each host, and each connection one loop.** -/
theorem launches : Launches config peers ((launch τ ι net config peers) s).1.1
    ((launch τ ι net config peers) s).1.2 := by
  have hpairs := peers_launch τ ι net config peers s
  have hnames := names_launch τ ι net config peers s
  have hmembers := members_launch τ ι net config peers s
  -- all is said in these three, whatever the network did
  generalize (launch τ ι net config peers) s = launched at hpairs hnames hmembers ⊢
  have hpeers : launched.1.2.map (·.connection.peer) = firstsBy (·.hostname) peers := by
    have hfst := congrArg (List.map Prod.fst) hpairs
    rw [List.map_map, List.map_map] at hfst
    exact hfst.trans (List.map_id _)
  have hhosts : launched.1.2.map (·.connection.peer.hostname) =
      (firstsBy (·.hostname) peers).map (·.hostname) := by
    rw [← hpeers, List.map_map]
    rfl
  have hservers (host : String) :
      host ∈ launched.1.1.servers ↔ host ∈ (firstsBy (·.hostname) peers).map (·.hostname) := by
    rw [hnames, Union.mem_addEach]
    exact or_iff_right List.not_mem_nil
  refine
    { registered := fun host => ?_
      one_each := ?_
      first := fun x hx => ?_
      ordered := ?_
      tended := fun x hx => ?_
      all := fun hnodup => hpeers.trans (firstsBy_eq_self hnodup) }
  · rw [hservers, mem_map_firstsBy_iff, List.mem_map]
  · rw [hhosts]
    refine (List.perm_ext_iff_of_nodup (nodup_firstsBy _ peers) launched.1.1.nodup_servers).mpr ?_
    exact fun host => (hservers host).symm
  · have hmem : (x.connection.peer, x.connection.config) ∈
        (firstsBy (·.hostname) peers).map (·, config) := hpairs ▸ List.mem_map_of_mem hx
    obtain ⟨p, hp, heq⟩ := List.mem_map.mp hmem
    obtain ⟨rfl, hconfig⟩ := Prod.mk.inj heq
    exact ⟨mem_firstsBy_iff.mp hp, hconfig.symm⟩
  · rw [hpeers]
    exact firstsBy_sublist _ peers
  · rw [hmembers] at hx
    obtain ⟨c, -, rfl⟩ := List.mem_map.mp hx
    exact ⟨rfl, Shared.callers_start, fun user huser => if_neg huser⟩

/-- **One connection for each host**, of a key directory and of any list of peers; and all that is
loaded from a directory is launched. -/
theorem one_for_each_host (t : Tree) (directory : String) :
    Peer.Loads t directory
      ∧ Launches config peers ((launch τ ι net config peers) s).1.1
        ((launch τ ι net config peers) s).1.2
      ∧ ∀ loaded, Peer.load t directory = .ok loaded →
        ((launch τ ι net config loaded) s).1.2.map (·.connection.peer) = loaded := by
  refine ⟨Peer.loads t directory, launches τ ι net config peers s, fun loaded h => ?_⟩
  -- each host has been loaded once, so nothing is left out
  exact (launches τ ι net config loaded s).all (Peer.firstNamed_of_load h).distinct

end Fleet
end UnionFS.Client
