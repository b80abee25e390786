import UnionFS.Proofs.Client.Pieces
import UnionFS.Proofs.Client.Remotes
import UnionFS.Proofs.Client.Write

/-!
# Writes to a union

A write without a tag or a handle goes to one server after another until one takes it.  A server
that fails is passed over, whatever it has done before: so a write lands twice if a server carries
it out and its reply is lost (`changed_twice_iff`).
-/

namespace UnionFS

open Client

/-- A client and the servers that it has connections to, each on a machine of its own, with nothing
under way. -/
structure Cluster where
  fleet : Fleet String
  remotes : String → Remote
  exports : String → Export
  own : ∀ name c, fleet.find? name = some c → c.Holds name
  resting : ∀ name, (remotes name).Resting (exports name)

/-! ## One server after another -/

/-- One of the names is come to if all before it fail. -/
def Reached (fails : String → Prop) : List String → String → Prop
  | [], _ => False
  | first :: rest, name => name = first ∨ fails first ∧ Reached fails rest name

namespace Reached

variable {fails fails' : String → Prop} {names : List String} {a b name : String}

theorem mem (h : Reached fails names name) : name ∈ names := by
  induction names with
  | nil => exact h.elim
  | cons first rest ih =>
      rcases h with rfl | ⟨_, h⟩
      · exact List.mem_cons_self
      · exact List.mem_cons_of_mem first (ih h)

theorem congr (h : ∀ name ∈ names, fails name ↔ fails' name) :
    Reached fails names name ↔ Reached fails' names name := by
  induction names with
  | nil => exact Iff.rfl
  | cons first rest ih =>
      have hrest := ih fun x hx => h x (List.mem_cons_of_mem first hx)
      exact or_congr Iff.rfl (and_congr (h first List.mem_cons_self) hrest)

theorem append {before after : List String} (h : ∀ x ∈ before, fails x) :
    Reached fails (before ++ name :: after) name := by
  induction before with
  | nil => exact .inl rfl
  | cons first rest ih =>
      exact .inr ⟨h first List.mem_cons_self, ih fun x hx => h x (List.mem_cons_of_mem first hx)⟩

theorem split (h : Reached fails names name) :
    ∃ before after, names = before ++ name :: after ∧ ∀ x ∈ before, fails x := by
  induction names with
  | nil => exact h.elim
  | cons first rest ih =>
      rcases h with rfl | ⟨hfirst, h⟩
      · exact ⟨[], rest, rfl, nofun⟩
      · obtain ⟨before, after, rfl, hbefore⟩ := ih h
        refine ⟨first :: before, after, rfl, ?_⟩
        intro x hx
        rcases List.mem_cons.mp hx with rfl | hx
        · exact hfirst
        · exact hbefore x hx

/-- Of two that are come to, one comes first, and fails as all others before the second do. -/
theorem two (ha : Reached fails names a) (hb : Reached fails names b) (hne : a ≠ b) :
    ∃ first second before between after, (first = a ∧ second = b ∨ first = b ∧ second = a)
      ∧ names = before ++ first :: (between ++ second :: after)
      ∧ (∀ x ∈ before ++ between, fails x) ∧ fails first := by
  induction names with
  | nil => exact ha.elim
  | cons x rest ih =>
      rcases ha with rfl | ⟨hx, ha⟩
      · obtain ⟨hfails, hb⟩ := hb.resolve_left (Ne.symm hne)
        obtain ⟨between, after, rfl, hbetween⟩ := hb.split
        exact ⟨a, b, [], between, after, .inl ⟨rfl, rfl⟩, rfl, hbetween, hfails⟩
      rcases hb with rfl | ⟨_, hb⟩
      · obtain ⟨between, after, rfl, hbetween⟩ := ha.split
        exact ⟨b, a, [], between, after, .inr ⟨rfl, rfl⟩, rfl, hbetween, hx⟩
      · obtain ⟨first, second, before, between, after, hwho, rfl, hfails, hfirst⟩ := ih ha hb
        refine ⟨first, second, x :: before, between, after, hwho, rfl, ?_, hfirst⟩
        intro y hy
        rcases List.mem_cons.mp hy with rfl | hy
        · exact hx
        · exact hfails y hy

end Reached

namespace Client.Fleet

variable {α : Type} {fleet : Fleet String} {remotes : String → Remote}

/-- The request fails on the server. -/
def Fails (fleet : Fleet String) (remotes : String → Remote) (r : Request) (name : String) : Prop :=
  ∃ code, (fleet.attempt remotes name r).1 = .error code

/-- Only what a server's own connection and remote are decides what it does. -/
theorem attempt_congr {fleet' : Fleet String} {remotes' : String → Remote} {name : String}
    (hf : fleet'.find? name = fleet.find? name) (hr : remotes' name = remotes name) (r : Request) :
    fleet'.attempt remotes' name r = fleet.attempt remotes name r := by
  rw [attempt, attempt, hf, hr]

/-- **Where servers are tried one after another, each that is come to makes its own attempt, and the
others stay as they are.** -/
theorem remote_tryEach (remotes : String → Remote) (r : Request) (last : Code)
    {names : List String} (hnodup : names.Nodup)
    (hown : ∀ name ∈ names, ∀ c, fleet.find? name = some c → c.Holds name) (name : String) :
    (Reached (fleet.Fails remotes r) names name →
      (onRemotes (Union.tryEach (Union.ask · r) last names) fleet remotes).2 name =
        (fleet.attempt remotes name r).2)
    ∧ (¬ Reached (fleet.Fails remotes r) names name →
      (onRemotes (Union.tryEach (Union.ask · r) last names) fleet remotes).2 name =
        remotes name) := by
  induction names generalizing fleet remotes last with
  | nil => exact ⟨fun h => h.elim, fun _ => rfl⟩
  | cons server rest ih =>
      obtain ⟨habsent, hrest⟩ := List.nodup_cons.mp hnodup
      obtain ⟨fleet', hanswer, hsame⟩ := answer_request remotes r
        (hown server List.mem_cons_self)
      have hne : ∀ other ∈ rest, other ≠ server := by
        rintro other hmem rfl
        exact habsent hmem
      rw [Union.tryEach, show ∀ k, Union.ask server r >>= k = (Union.ask server r).bind k from
        fun _ => rfl, onRemotes_bind, onRemotes_request, hanswer]
      dsimp only
      cases hout : (fleet.attempt remotes server r).1 with
      | ok value =>
          -- the server takes it, and no other is come to
          have hends : ¬ fleet.Fails remotes r server := by
            rintro ⟨code, hcode⟩
            rw [hout] at hcode
            cases hcode
          show (Reached _ _ name → Function.update remotes server _ name = _)
            ∧ (¬ Reached _ _ name → Function.update remotes server _ name = _)
          constructor
          · rintro (rfl | ⟨hfails, _⟩)
            · exact Function.update_self _ _ _
            · exact absurd hfails hends
          · intro hnot
            exact Function.update_of_ne (fun h => hnot (.inl h)) _ _
      | error code =>
          -- the server is passed over, and the others find everything as it was for them
          have hfails : fleet.Fails remotes r server := ⟨code, hout⟩
          have hlater : ∀ other ∈ rest, fleet'.attempt
              (Function.update remotes server (fleet.attempt remotes server r).2) other r =
              fleet.attempt remotes other r := fun other hmem =>
            attempt_congr (hsame other (hne other hmem))
              (Function.update_of_ne (hne other hmem) _ _) r
          have hreached : Reached (fleet'.Fails
              (Function.update remotes server (fleet.attempt remotes server r).2) r) rest name ↔
              Reached (fleet.Fails remotes r) rest name :=
            Reached.congr fun other hmem => by rw [Fails, Fails, hlater other hmem]
          obtain ⟨hyes, hno⟩ := ih
            (Function.update remotes server (fleet.attempt remotes server r).2) code hrest
            fun other hmem c hc => hown other (List.mem_cons_of_mem server hmem) c
              (hsame other (hne other hmem) ▸ hc)
          constructor
          · rintro (rfl | ⟨_, hin⟩)
            · have hout : ¬ Reached (fleet'.Fails
                  (Function.update remotes name (fleet.attempt remotes name r).2) r) rest name :=
                fun hin => habsent hin.mem
              exact (hno hout).trans (Function.update_self _ _ _)
            · exact (hyes (hreached.mpr hin)).trans (congrArg Prod.snd (hlater name hin.mem))
          · intro hnot
            have hname : name ≠ server := fun h => hnot (.inl h)
            have hin : ¬ Reached (fleet.Fails remotes r) rest name :=
              fun hin => hnot (.inr ⟨hfails, hin⟩)
            exact (hno fun h => hin (hreached.mp h)).trans (Function.update_of_ne hname _ _)

end Client.Fleet

/-! ## Writes that land twice -/

namespace Cluster

variable (k : Cluster) (u : Union) (path : String) (data : Bytes) (offset : UInt64)

/-- A write without a handle: what it gives, and everything after it. -/
def write : (Outcome UInt64 × Fleet String) × (String → Remote) :=
  Fleet.onRemotes (u.write path data offset none) k.fleet k.remotes

/-- The write changes the tree of this server. -/
def Changed (name : String) : Prop :=
  ((k.write u path data offset).2 name).tree ≠ (k.remotes name).tree

/-- The servers that are connected, in the order in which they are tried. -/
def connected : List String :=
  u.servers.filter fun name => (k.fleet.find? name).any (·.connected)

/-- The server's own attempt fails, as far as the client can tell. -/
def Fails (name : String) : Prop :=
  k.fleet.Fails k.remotes (.write path data offset) name

/-- The server's own attempt changes its tree. -/
def Changes (name : String) : Prop :=
  (k.fleet.attempt k.remotes name (.write path data offset)).2.tree ≠ (k.remotes name).tree

/-- The server carries out the first piece of the write, and the reply to it is lost. -/
def LosesReply (name : String) : Prop :=
  ∃ c, k.fleet.find? name = some c
    ∧ c.LosesReply (k.remotes name) (k.exports name) path data offset

variable {k u path data offset} {name : String}

theorem losesReply_iff :
    k.LosesReply path data offset name ↔
      k.Fails path data offset name ∧ k.Changes path data offset name := by
  rw [LosesReply, Fails, Changes, Fleet.Fails, Fleet.attempt]
  cases hfound : k.fleet.find? name with
  | none =>
      constructor
      · rintro ⟨c, hc, _⟩
        cases hc
      · rintro ⟨_, hchanges⟩
        exact absurd rfl hchanges
  | some c =>
      rw [Connection.request_write_losesReply_iff fun _ => k.resting name]
      constructor
      · rintro ⟨c', hc, hlost⟩
        cases hc
        exact hlost
      · intro hlost
        exact ⟨c, rfl, hlost⟩

theorem nodup_connected : (k.connected u).Nodup := u.nodup_servers.filter _

/-- A write that is not told where to go changes the servers that it comes to. -/
theorem changed_iff_of_untagged {p : String} (h : u.route path = .untagged p) :
    k.Changed u path data offset name ↔
      Reached (k.Fails p data offset) (k.connected u) name ∧ k.Changes p data offset name := by
  have hwrite : u.write path data offset none = u.connected.bind fun names =>
      Union.tryEach (Union.ask · (.write p data offset)) .notFound names := by
    rw [Union.write, h]
    rfl
  have hreach := Fleet.remote_tryEach k.remotes (.write p data offset) .notFound
    (nodup_connected (k := k) (u := u)) (fun name _ c hc => k.own name c hc) name
  rw [Changed, write, hwrite, Fleet.onRemotes_bind, Union.connected, Fleet.onRemotes_connectedOf]
  show ((Fleet.onRemotes (Union.tryEach _ _ (k.connected u)) k.fleet k.remotes).2 name).tree ≠ _ ↔ _
  by_cases hin : Reached (k.Fails p data offset) (k.connected u) name
  · rw [hreach.1 hin, and_iff_right hin]
    exact Iff.rfl
  · rw [hreach.2 hin]
    constructor
    · intro hchanged
      exact absurd rfl hchanged
    · intro h
      exact absurd h.1 hin

/-- A write that is told where to go changes that server alone. -/
theorem changed_of_tagged {server p : String} (h : u.route path = .tagged server p)
    (hchanged : k.Changed u path data offset name) : name = server := by
  by_contra hne
  obtain ⟨fleet', hanswer, _⟩ := Fleet.answer_request k.remotes
    (.write p data offset) (k.own server)
  have hwrite : u.write path data offset none = Union.ask server (.write p data offset) := by
    rw [Union.write, h]
  rw [Changed, write, hwrite, Fleet.onRemotes_request, hanswer] at hchanged
  exact hchanged (congrArg Remote.tree (Function.update_of_ne hne _ _))

/-- A write to a server that nobody knows changes nothing. -/
theorem not_changed_of_unknown (h : u.route path = .unknown) :
    ¬ k.Changed u path data offset name := by
  have hwrite : u.write path data offset none = .done (.error .notFound) := by
    rw [Union.write, h]
    rfl
  rw [Changed, write, hwrite]
  exact fun hchanged => hchanged rfl

/-- A lost reply is enough for a write to land twice. -/
theorem changed_twice_of {p : String} (h : u.route path = .untagged p)
    {before between after : List String} {first second : String}
    (hnames : k.connected u = before ++ first :: (between ++ second :: after))
    (hfails : ∀ name ∈ before ++ between, k.Fails p data offset name)
    (hlost : k.LosesReply p data offset first) (hchange : k.Changes p data offset second) :
    ∃ a b, a ≠ b ∧ k.Changed u path data offset a ∧ k.Changed u path data offset b := by
  obtain ⟨hfirst, hchangefirst⟩ := losesReply_iff.mp hlost
  -- a server is tried once
  have hne : first ≠ second := by
    have hnodup := nodup_connected (k := k) (u := u)
    rw [hnames] at hnodup
    have hcons := (List.nodup_append.mp hnodup).2.1
    rintro rfl
    exact (List.nodup_cons.mp hcons).1 (List.mem_append_right _ List.mem_cons_self)
  have hreach : Reached (k.Fails p data offset) (k.connected u) first := by
    rw [hnames]
    exact Reached.append fun x hx => hfails x (List.mem_append_left _ hx)
  have hreach' : Reached (k.Fails p data offset) (k.connected u) second := by
    rw [hnames, show before ++ first :: (between ++ second :: after) =
      (before ++ first :: between) ++ second :: after by simp]
    refine Reached.append fun x hx => ?_
    rcases List.mem_append.mp hx with hx | hx
    · exact hfails x (List.mem_append_left _ hx)
    rcases List.mem_cons.mp hx with rfl | hx
    · exact hfirst
    · exact hfails x (List.mem_append_right _ hx)
  exact ⟨first, second, hne, (changed_iff_of_untagged h).mpr ⟨hreach, hchangefirst⟩,
    (changed_iff_of_untagged h).mpr ⟨hreach', hchange⟩⟩

/-- **When a write lands on two servers.**  It has to be sent without a tag, one server loses its
reply after it has carried the write out, all others before it and between the two have failed, and
a later server is changed by its own attempt.  Then the client has no way to tell, and this is the
only way for a write to land twice: where no reply is lost, at most one server is changed. -/
theorem changed_twice_iff (k : Cluster) (u : Union) (path : String) (data : Bytes)
    (offset : UInt64) :
    (∃ a b, a ≠ b ∧ k.Changed u path data offset a ∧ k.Changed u path data offset b) ↔
      ∃ p, u.route path = .untagged p ∧ ∃ before first between second after,
        k.connected u = before ++ first :: (between ++ second :: after)
        ∧ (∀ name ∈ before ++ between, k.Fails p data offset name)
        ∧ k.LosesReply p data offset first ∧ k.Changes p data offset second := by
  constructor
  · rintro ⟨a, b, hne, ha, hb⟩
    cases hroute : u.route path with
    | tagged server p =>
        have hsame := (changed_of_tagged hroute ha).trans (changed_of_tagged hroute hb).symm
        exact absurd hsame hne
    | unknown => exact absurd ha (not_changed_of_unknown hroute)
    | untagged p =>
        obtain ⟨hina, hchangea⟩ := (changed_iff_of_untagged hroute).mp ha
        obtain ⟨hinb, hchangeb⟩ := (changed_iff_of_untagged hroute).mp hb
        obtain ⟨first, second, before, between, after, hwho, hnames, hfails, hfirst⟩ :=
          hina.two hinb hne
        refine ⟨p, rfl, before, first, between, second, after, hnames, hfails, ?_⟩
        rcases hwho with ⟨rfl, rfl⟩ | ⟨rfl, rfl⟩
        · exact ⟨losesReply_iff.mpr ⟨hfirst, hchangea⟩, hchangeb⟩
        · exact ⟨losesReply_iff.mpr ⟨hfirst, hchangeb⟩, hchangea⟩
  · rintro ⟨p, hroute, before, first, between, second, after, hnames, hfails, hlost, hchange⟩
    exact changed_twice_of hroute hnames hfails hlost hchange

/-! ## A lost reply -/

def sampleSession : Session :=
  { gate := ⟨[], [], {}⟩, phase := .idle Export.sample, deadline := 0 }

/-- A server with one file, at the end of a stream that carries so many bytes more. -/
def sampleRemote (reaching returning : Nat) : Remote :=
  { line := { address := "", far := .session sampleSession }
    tree := Export.sampleTree, reaching, returning, failure := .closed }

theorem resting_sampleRemote (reaching returning : Nat) :
    (sampleRemote reaching returning).Resting Export.sample :=
  ⟨⟨sampleSession, rfl, rfl, rfl, rfl⟩, rfl⟩

def sampleConnection (name : String) : Connection String :=
  { peer := ⟨name, 2678, "key"⟩, config := { keyDir := "" }, line := some name, connected := true }

/-- The stream to the first of two servers breaks before the second reply of a write.  A write of
two bytes to the file is 28 bytes and the data, and its first reply has 8. -/
def sample : Cluster where
  fleet := [sampleConnection "alpha", sampleConnection "beta"]
  remotes name := if name = "alpha" then sampleRemote 30 8 else sampleRemote 64 64
  exports _ := Export.sample
  own := by
    intro name c hc l hl
    have hname := Fleet.peer_of_find? hc
    have hmem := List.mem_of_find?_eq_some hc
    rcases List.mem_cons.mp hmem with rfl | hmem
    · exact (Option.some.inj hl).symm.trans hname
    · obtain rfl := List.mem_singleton.mp hmem
      exact (Option.some.inj hl).symm.trans hname
  resting name := by
    split <;> exact resting_sampleRemote _ _

theorem ascending_sample : ["alpha", "beta"].Pairwise (· < ·) := by decide

def sampleUnion : Union := { servers := ["alpha", "beta"], ascending := ascending_sample }

theorem opened_sample :
    Export.sample.openForWrite Export.sampleTree "/f" 2 = .ok [[100], [102]] :=
  Export.openForWrite_eq_ok.mpr ⟨by decide, { content := .file [1, 2, 3], permissions := 0o644 },
    ⟨Export.confine_sample, by decide, by decide, by decide⟩, by decide⟩

theorem changed_sample :
    (Export.writeAt [[100], [102]] 0 [4, 5] Export.sampleTree).2 ≠ Export.sampleTree := by
  intro h
  have hdata := congrArg (fun t : Tree => (t.lookup [[100], [102]]).map (·.data)) h
  revert hdata
  decide

theorem getsThrough_sample {reaching returning : Nat} (hr : 30 ≤ reaching) (hb : 8 ≤ returning) :
    (sampleRemote reaching returning).GetsThrough Export.sample "/f" [4, 5] 0 [[100], [102]] :=
  ⟨by decide, opened_sample, hr, hb⟩

/-- **A write does not always land on one server at most.** -/
theorem not_at_most_once :
    ¬ ∀ (k : Cluster) (u : Union) (path p : String) (data : Bytes) (offset : UInt64),
      u.route path = .untagged p → ∀ a b, k.Changed u path data offset a →
        k.Changed u path data offset b → a = b := by
  intro hall
  have hlost : (sampleRemote 30 8).LosesReply Export.sample "/f" [4, 5] 0 :=
    ⟨_, getsThrough_sample (Nat.le_refl _) (Nat.le_refl _), changed_sample, by decide⟩
  have hfirst : sample.LosesReply "/f" [4, 5] 0 "alpha" :=
    ⟨sampleConnection "alpha", rfl, nofun, by decide, hlost⟩
  have hsecond : sample.Changes "/f" [4, 5] 0 "beta" := by
    have htree := Connection.tree_request_write (c := sampleConnection "beta")
      (resting_sampleRemote 64 64) 0 rfl (by decide) (by decide) (by decide)
      (getsThrough_sample (by decide) (by decide))
    intro hsame
    exact changed_sample (htree.symm.trans hsame)
  have hnames : sample.connected sampleUnion = [] ++ "alpha" :: ([] ++ "beta" :: []) := by decide
  have hroute : sampleUnion.route "/f" = .untagged "/f" := by decide
  obtain ⟨a, b, hne, ha, hb⟩ := changed_twice_of hroute hnames nofun hfirst hsecond
  exact hne (hall sample sampleUnion "/f" "/f" [4, 5] 0 hroute a b ha hb)

end Cluster
end UnionFS
