import UnionFS.Proofs.Keyed
import UnionFS.Proofs.Union.Tag
import UnionFS.Union.Basic

/-!
# Listings and look-ups

Merging listings and looking names up are two algorithms over the same servers.  Where each server
agrees with itself, a file is always found under the name that it is listed by, bare or tagged.  A
directory keeps its bare name, and the name is looked up like any other: it is found only if the
first server that has the name has the directory (`getattr_listed_iff`).  A file of that name on an
earlier server is found instead (`not_always_found`).

* `getattr_iff`: what a path leads to, in terms of what the servers answer;
* `mergeListings_eq`: a merge sees every entry of every server once.
-/

namespace UnionFS

open Tag

/-- Servers that always answer the same. -/
structure Peers where
  connected : String → Bool
  reply : (server : String) → (r : Request) → Outcome r.Answer

namespace Peers

variable {α β : Type} {ps : Peers} {u : Union} {d server name : String} {stat : Stat}

def answer (ps : Peers) : (q : Inquiry) → q.Answer
  | .connected server => ps.connected server
  | .request server r => ps.reply server r
  | .stop _ => true

/-- What a plan over the servers ends in. -/
def run (ps : Peers) (p : UnionPlan α) : α := Id.run (p.run ps.answer)

theorem run_bind (ps : Peers) (p : UnionPlan α) (k : α → UnionPlan β) :
    ps.run (p >>= k) = ps.run (k (ps.run p)) := by
  show Id.run ((p.bind k).run ps.answer) = _
  rw [Plan.run_bind]
  rfl

theorem run_connectedOf {servers : List String} (h : ∀ s ∈ servers, ps.connected s = true) :
    ps.run (Union.connectedOf servers) = servers := by
  induction servers with
  | nil => rfl
  | cons s rest ih =>
      rw [Union.connectedOf, run_bind, run_bind, ih fun x hx => h x (List.mem_cons_of_mem s hx)]
      show (if ps.connected s then s :: rest else rest) = s :: rest
      rw [if_pos (h s List.mem_cons_self)]

theorem run_askEach (ps : Peers) (question : String → UnionPlan α) (servers : List String) :
    ps.run (Union.askEach question servers) = servers.map fun s => (s, ps.run (question s)) := by
  induction servers with
  | nil => rfl
  | cons s rest ih =>
      rw [Union.askEach, run_bind, run_bind, ih]
      rfl

end Peers

namespace Union

variable {α : Type}

/-- The first success is that of the first server that has one. -/
theorem firstSuccess_eq_ok_iff {f : String → Outcome α} {servers : List String} {last : Code}
    {value : α} :
    (firstSuccess last (servers.map fun s => (s, f s))).map (·.2) = .ok value ↔
      ∃ before s after, servers = before ++ s :: after ∧ f s = .ok value
        ∧ ∀ s' ∈ before, ∀ value', f s' ≠ .ok value' := by
  induction servers generalizing last with
  | nil =>
      constructor
      · intro h
        cases h
      · rintro ⟨before, s, after, h, -⟩
        cases before <;> cases h
  | cons s rest ih =>
      rw [List.map_cons]
      cases hs : f s with
      | ok v =>
          constructor
          · intro h
            cases h
            exact ⟨[], s, rest, rfl, hs, fun s' h => (by cases h)⟩
          · rintro ⟨before, s', after, h, hs', hnone⟩
            cases before with
            | nil =>
                cases h
                rw [hs] at hs'
                cases hs'
                rfl
            | cons x before =>
                cases h
                exact absurd hs (hnone s List.mem_cons_self v)
      | error c =>
          refine Iff.trans ih ?_
          constructor
          · rintro ⟨before, s', after, rfl, hs', hnone⟩
            refine ⟨s :: before, s', after, rfl, hs', ?_⟩
            intro x hx
            rcases List.mem_cons.mp hx with rfl | hx
            · intro v hv
              rw [hs] at hv
              cases hv
            · exact hnone x hx
          · rintro ⟨before, s', after, h, hs', hnone⟩
            cases before with
            | nil =>
                cases h
                rw [hs] at hs'
                cases hs'
            | cons x before =>
                cases h
                exact ⟨before, s', after, rfl, hs', fun y hy => hnone y (List.mem_cons_of_mem _ hy)⟩

/-! Where a path leads. -/

variable {u : Union} {path : String}

theorem route_of_untagged (h : (Address.ofPath path).server = "") :
    u.route path = .untagged (Address.ofPath path).path := by
  rw [route, h]
  rfl

theorem route_of_mem (h : (Address.ofPath path).server ≠ "")
    (hmem : (Address.ofPath path).server ∈ u.servers) :
    u.route path = .tagged (Address.ofPath path).server (Address.ofPath path).path := by
  rw [route, if_neg (by simpa [String.isEmpty_iff] using h), if_pos (by simpa using hmem)]

theorem route_of_not_mem (h : (Address.ofPath path).server ≠ "")
    (hmem : (Address.ofPath path).server ∉ u.servers) : u.route path = .unknown := by
  rw [route, if_neg (by simpa [String.isEmpty_iff] using h), if_neg (by simpa using hmem)]

end Union

/-! ## Servers that agree with themselves -/

namespace Peers

variable {ps : Peers} {u : Union} {d server name : String} {stat : Stat}

/-- What a server lists in a directory. -/
def entries (ps : Peers) (d server : String) : List Entry :=
  match ps.reply server (.readdir d) with
  | .ok entries => entries
  | .error _ => []

/-- Some server lists the name in the directory. -/
def IsListed (ps : Peers) (u : Union) (d name : String) : Prop :=
  ∃ s ∈ u.servers, ∃ stat, ⟨name, stat⟩ ∈ ps.entries d s

/-- The server lists distinct names in the directory, and of all names that are listed there it has
what it lists itself and nothing else. -/
structure Consistent (ps : Peers) (u : Union) (d server : String) : Prop where
  listed : ps.reply server (.readdir d) = .ok (ps.entries d server)
  distinct : ((ps.entries d server).map (·.name)).Nodup
  found : ∀ name, ps.IsListed u d name → ∀ stat,
    ps.reply server (.getattr (Path.under d name)) = .ok stat ↔ ⟨name, stat⟩ ∈ ps.entries d server

/-- Connected servers, each in agreement with itself, with names that no tag is mistaken in. -/
structure Serve (ps : Peers) (u : Union) (d : String) : Prop where
  connected : ∀ s ∈ u.servers, ps.connected s = true
  consistent : ∀ s ∈ u.servers, ps.Consistent u d s
  nonempty : ∀ s ∈ u.servers, s ≠ ""
  no_slash : ∀ s ∈ u.servers, '/' ∉ s.toList
  no_opener : ∀ s ∈ u.servers, hasOpener s = false

/-- The first server that has something at the path has it with these attributes. -/
def FirstHas (ps : Peers) (u : Union) (path : String) (stat : Stat) : Prop :=
  ∃ before s after, u.servers = before ++ s :: after ∧ ps.reply s (.getattr path) = .ok stat
    ∧ ∀ s' ∈ before, ∀ stat', ps.reply s' (.getattr path) ≠ .ok stat'

/-- What an address leads to: without a server to the first copy, and else to the server's. -/
inductive Finds (ps : Peers) (u : Union) (address : Address) (stat : Stat) : Prop where
  | first : address.server = "" → ps.FirstHas u address.path stat → Finds ps u address stat
  | tagged : address.server ≠ "" → address.server ∈ u.servers →
    ps.reply address.server (.getattr address.path) = .ok stat → Finds ps u address stat

theorem finds_iff_first {address : Address} (h : address.server = "") :
    ps.Finds u address stat ↔ ps.FirstHas u address.path stat := by
  constructor
  · intro hfinds
    cases hfinds with
    | first _ hfirst => exact hfirst
    | tagged hne => exact absurd h hne
  · exact .first h

theorem finds_iff_tagged {address : Address} (h : address.server ≠ "") :
    ps.Finds u address stat ↔
      address.server ∈ u.servers ∧ ps.reply address.server (.getattr address.path) = .ok stat := by
  constructor
  · intro hfinds
    cases hfinds with
    | first heq => exact absurd heq h
    | tagged _ hmem hreply => exact ⟨hmem, hreply⟩
  · rintro ⟨hmem, hreply⟩
    exact .tagged h hmem hreply

/-- **What a path leads to**, in terms of what the servers answer. -/
theorem getattr_iff (hconn : ∀ s ∈ u.servers, ps.connected s = true) {path : String} :
    ps.run (u.getattr path) = .ok stat ↔ ps.Finds u (Address.ofPath path) stat := by
  by_cases hserver : (Address.ofPath path).server = ""
  · -- without a tag all servers are asked, and the first success counts
    have hservers : ps.run u.connected = u.servers := run_connectedOf hconn
    rw [finds_iff_first hserver, Union.getattr, Union.lookup, Union.route_of_untagged hserver]
    dsimp only
    rw [run_bind, Union.askConnected, run_bind, run_bind, hservers, run_askEach]
    exact Union.firstSuccess_eq_ok_iff
  · rw [finds_iff_tagged hserver]
    by_cases hmem : (Address.ofPath path).server ∈ u.servers
    · -- with a tag only the server that it names is asked
      rw [and_iff_right hmem, Union.getattr, Union.lookup, Union.route_of_mem hserver hmem]
      dsimp only
      rw [run_bind, run_bind]
      show ((ps.reply _ (.getattr _)).map _).map _ = .ok stat ↔ _
      cases ps.reply (Address.ofPath path).server (.getattr (Address.ofPath path).path) with
      | ok value => exact Iff.rfl
      | error c =>
          constructor
          · intro hc
            cases hc
          · intro hc
            cases hc
    · rw [Union.getattr, Union.lookup, Union.route_of_not_mem hserver hmem]
      constructor
      · intro hc
        cases hc
      · intro hfinds
        exact absurd hfinds.1 hmem

/-- The first server that lists the name at all lists it with these attributes. -/
def FirstLists (ps : Peers) (u : Union) (d name : String) (stat : Stat) : Prop :=
  ∃ before s after, u.servers = before ++ s :: after ∧ ⟨name, stat⟩ ∈ ps.entries d s
    ∧ ∀ s' ∈ before, ∀ stat', ⟨name, stat'⟩ ∉ ps.entries d s'

theorem firstHas_under_iff (h : ps.Serve u d) (hname : ps.IsListed u d name) :
    ps.FirstHas u (Path.under d name) stat ↔ ps.FirstLists u d name stat := by
  refine exists_congr fun before => exists_congr fun s => exists_congr fun after => ?_
  refine and_congr_right fun hsplit => ?_
  have hfound {x : String} (hx : x ∈ before ++ s :: after) := (h.consistent x (hsplit ▸ hx)).found
  refine and_congr (hfound (by simp) name hname stat) ?_
  refine forall_congr' fun s' => forall_congr' fun hs' => forall_congr' fun stat' => ?_
  exact not_congr (hfound (List.mem_append_left _ hs') name hname stat')

end Peers

/-! ## What a merge sees -/

namespace Merge

/-- The sightings of one server's listing. -/
def sightingsOf (server : String) (entries : List Entry) : List Sighting :=
  entries.map fun e => ⟨e.name, server, e.stat⟩

theorem addEntries_eq {m : Merge} {server : String} {entries : List Entry}
    (hdistinct : (entries.map (·.name)).Nodup)
    (hnew : ∀ s ∈ m.sightings, s.server = server → ∀ e ∈ entries, s.name ≠ e.name) :
    m.addEntries server entries = (⟨m.sightings ++ sightingsOf server entries⟩, 0) := by
  induction entries generalizing m with
  | nil => simp [addEntries, sightingsOf]
  | cons e rest ih =>
      obtain ⟨hfresh, hrest⟩ := List.nodup_cons.mp hdistinct
      -- no sighting is of this name on this server, so none is dropped
      have hadd : m.add ⟨e.name, server, e.stat⟩ =
          .ok ⟨m.sightings ++ [⟨e.name, server, e.stat⟩]⟩ := by
        refine if_neg ?_
        intro hany
        obtain ⟨s, hs, hrepeats⟩ := List.any_eq_true.mp hany
        simp only [Sighting.repeats, Bool.and_eq_true, beq_iff_eq] at hrepeats
        exact hnew s hs hrepeats.1.2 e List.mem_cons_self hrepeats.1.1
      rw [addEntries, hadd]
      dsimp only
      rw [ih hrest]
      · simp [sightingsOf]
      · intro s hs hserver e' he'
        rcases List.mem_append.mp hs with hs | hs
        · exact hnew s hs hserver e' (List.mem_cons_of_mem e he')
        · rw [List.mem_singleton.mp hs]
          intro hname
          exact hfresh (List.mem_map.mpr ⟨e', he', hname.symm⟩)

/-- **A merge of distinct servers sees every entry of each of them once**, in the order of the
servers. -/
theorem mergeListings_eq {f : String → List Entry} {servers : List String} {m : Merge}
    (hservers : servers.Nodup) (hdistinct : ∀ s ∈ servers, ((f s).map (·.name)).Nodup)
    (hnew : ∀ x ∈ m.sightings, x.server ∉ servers) :
    Union.mergeListings (servers.map fun s => (s, .ok (f s))) m =
      ⟨m.sightings ++ servers.flatMap fun s => sightingsOf s (f s)⟩ := by
  induction servers generalizing m with
  | nil => simp [Union.mergeListings]
  | cons s rest ih =>
      obtain ⟨hfresh, hrest⟩ := List.nodup_cons.mp hservers
      have hs : ∀ x ∈ m.sightings, x.server = s → ∀ e ∈ f s, x.name ≠ e.name := by
        intro x hx hserver
        exact absurd (hserver ▸ List.mem_cons_self) (hnew x hx)
      rw [List.map_cons, Union.mergeListings, addEntries_eq (hdistinct s List.mem_cons_self) hs]
      rw [ih hrest fun x hx => hdistinct x (List.mem_cons_of_mem s hx)]
      · rw [List.flatMap_cons, List.append_assoc]
      · intro x hx
        rcases List.mem_append.mp hx with hx | hx
        · intro hmem
          exact hnew x hx (List.mem_cons_of_mem s hmem)
        · obtain ⟨e, -, rfl⟩ := List.mem_map.mp hx
          exact hfresh

theorem firstOfEach_eq (l : List Sighting) : firstOfEach l = firstsBy Sighting.name l := rfl

theorem mem_firstOfEach {l : List Sighting} {s : Sighting} (h : s ∈ firstOfEach l) : s ∈ l :=
  (firstsBy_sublist Sighting.name l).subset h

/-- Of the sightings of one name the first is kept. -/
theorem find?_of_mem_firstOfEach {l : List Sighting} {s : Sighting} (h : s ∈ firstOfEach l) :
    l.find? (·.name == s.name) = some s :=
  mem_firstsBy_iff.mp (firstOfEach_eq l ▸ h)

/-- What is listed as a directory is one. -/
theorem isDirectory_of_mem_directoryEntries {m : Merge} {e : Entry}
    (h : e ∈ m.directoryEntries) : e.stat.isDirectory = true := by
  obtain ⟨s, hs, rfl⟩ := List.mem_map.mp h
  exact (List.mem_filter.mp (mem_firstOfEach hs)).2

end Merge

/-! ## Every entry looked up -/

namespace Peers

variable {ps : Peers} {u : Union} {d name : String} {stat : Stat}

/-- All that the servers list in a directory. -/
def merged (ps : Peers) (u : Union) (d : String) : Merge :=
  ⟨u.servers.flatMap fun s => Merge.sightingsOf s (ps.entries d s)⟩

theorem mem_merged {s : Sighting} :
    s ∈ (ps.merged u d).sightings ↔
      s.server ∈ u.servers ∧ ⟨s.name, s.stat⟩ ∈ ps.entries d s.server := by
  rw [merged, List.mem_flatMap]
  constructor
  · rintro ⟨server, hserver, hs⟩
    obtain ⟨e, he, rfl⟩ := List.mem_map.mp hs
    exact ⟨hserver, he⟩
  · rintro ⟨hserver, he⟩
    exact ⟨s.server, hserver, List.mem_map.mpr ⟨_, he, rfl⟩⟩

/-- Where each server has a listing to give, the listings are merged. -/
theorem run_readdir (h : ps.Serve u d) (hd : Address.ofPath d = ⟨"", d⟩) :
    ps.run (u.readdir d) =
      if u.servers = [] then .error .notFound else .ok (ps.merged u d).listing := by
  have hroute : u.route d = .untagged d := by
    rw [Union.route, hd]
    rfl
  have hconn : ps.run u.connected = u.servers := run_connectedOf h.connected
  have hanswers : (u.servers.map fun s => (s, ps.run (Union.ask s (.readdir d)))) =
      u.servers.map fun s => (s, .ok (ps.entries d s)) := by
    refine List.map_congr_left fun s hs => ?_
    exact congrArg (Prod.mk s) (h.consistent s hs).listed
  have hmerge := Merge.mergeListings_eq (f := ps.entries d) (m := {}) u.nodup_servers
    (fun s hs => (h.consistent s hs).distinct) (fun x hx => by cases hx)
  rw [Union.readdir, hroute]
  dsimp only
  rw [run_bind, run_bind, hconn, run_askEach, hanswers]
  show Union.mergedListing _ = _
  rw [Union.mergedListing, hmerge, merged]
  cases u.servers with
  | nil => rfl
  | cons s rest => rfl

/-- Of a file that keeps its bare name there is one copy on all servers. -/
theorem server_eq_of_keepsName {s : Sighting} (hs : s ∈ (ps.merged u d).files)
    (hkeeps : (ps.merged u d).keepsName s = true) {server : String} (hserver : server ∈ u.servers)
    (hlist : ⟨s.name, stat⟩ ∈ ps.entries d server) : server = s.server := by
  have hmem : ⟨s.name, server, stat⟩ ∈ (ps.merged u d).sightings := mem_merged.mpr ⟨hserver, hlist⟩
  simp only [Merge.keepsName, Bool.and_eq_true, beq_iff_eq, Bool.not_eq_true'] at hkeeps
  obtain ⟨⟨hone, hnodir⟩, -⟩ := hkeeps
  by_cases hdir : stat.isDirectory = true
  · -- a directory of the name would have taken it from the file
    exfalso
    have hany : (ps.merged u d).directories.any (·.name == s.name) = true :=
      List.any_eq_true.mpr ⟨_, List.mem_filter.mpr ⟨hmem, hdir⟩, beq_self_eq_true _⟩
    rw [hnodir] at hany
    cases hany
  · -- both are the one file of the name
    obtain ⟨x, hx⟩ := List.length_eq_one_iff.mp hone
    have hthis : (⟨s.name, server, stat⟩ : Sighting) ∈ [x] := by
      rw [← hx]
      refine List.mem_filter.mpr ⟨List.mem_filter.mpr ⟨hmem, ?_⟩, beq_self_eq_true _⟩
      simpa using hdir
    have hself : s ∈ [x] := by
      rw [← hx]
      exact List.mem_filter.mpr ⟨hs, beq_self_eq_true _⟩
    rw [List.mem_singleton.mp hself, ← List.mem_singleton.mp hthis]

/-- **A file is found under the name that it is listed by**, bare or tagged. -/
theorem finds_file (h : ps.Serve u d) {s : Sighting} (hs : s ∈ (ps.merged u d).files) :
    ps.Finds u (Address.ofPath (Path.under d ((ps.merged u d).listedName s))) s.stat := by
  obtain ⟨hserver, hlist⟩ := mem_merged.mp (List.mem_filter.mp hs).1
  have hname : ps.IsListed u d s.name := ⟨_, hserver, _, hlist⟩
  unfold Merge.listedName
  by_cases hkeeps : (ps.merged u d).keepsName s = true
  · have hopener : hasOpener s.name = false := by
      simp only [Merge.keepsName, Bool.and_eq_true, Bool.not_eq_true'] at hkeeps
      exact hkeeps.2
    have haddress := Address.ofPath_under d s.name
    rw [Address.ofPath_of_no_opener hopener] at haddress
    rw [if_pos hkeeps, haddress]
    refine .first rfl ((firstHas_under_iff h hname).mpr ?_)
    obtain ⟨before, after, hsplit, hfresh⟩ := List.eq_append_cons_of_mem hserver
    refine ⟨before, s.server, after, hsplit, hlist, ?_⟩
    intro s' hs' stat' hlist'
    have hmem : s' ∈ u.servers := by
      rw [hsplit]
      exact List.mem_append_left _ hs'
    rw [server_eq_of_keepsName hs hkeeps hmem hlist'] at hs'
    exact hfresh hs'
  · have haddress := Address.ofPath_under d (attach s.name s.server)
    rw [Address.ofPath_attach s.name (h.no_slash _ hserver) (h.no_opener _ hserver)] at haddress
    rw [if_neg hkeeps, haddress]
    refine .tagged (h.nonempty _ hserver) hserver ?_
    exact ((h.consistent _ hserver).found s.name hname s.stat).mpr hlist

/-- A server lists a file of this name, and none before it lists a directory. -/
def FileFirst (ps : Peers) (u : Union) (d name : String) : Prop :=
  ∃ before s after stat, u.servers = before ++ s :: after ∧ ⟨name, stat⟩ ∈ ps.entries d s
    ∧ stat.isDirectory = false
    ∧ ∀ s' ∈ before, ∀ stat', ⟨name, stat'⟩ ∈ ps.entries d s' → stat'.isDirectory = false

/-- A server lists a name once. -/
theorem Consistent.stat_eq {server : String} {stat' : Stat} (h : ps.Consistent u d server)
    (hserver : server ∈ u.servers) (hs : ⟨name, stat⟩ ∈ ps.entries d server)
    (hs' : ⟨name, stat'⟩ ∈ ps.entries d server) : stat = stat' := by
  have hname : ps.IsListed u d name := ⟨server, hserver, stat, hs⟩
  have hfound := (h.found name hname stat).mpr hs
  rw [(h.found name hname stat').mpr hs'] at hfound
  cases hfound
  rfl

/-- Of the servers that list a name there is a first. -/
theorem exists_first {servers : List String} {server : String} (hserver : server ∈ servers)
    (hs : ⟨name, stat⟩ ∈ ps.entries d server) :
    ∃ before s after stat', servers = before ++ s :: after ∧ ⟨name, stat'⟩ ∈ ps.entries d s
      ∧ ∀ s' ∈ before, ∀ stat'', ⟨name, stat''⟩ ∉ ps.entries d s' := by
  induction servers with
  | nil => cases hserver
  | cons x rest ih =>
      by_cases hx : ∃ stat', ⟨name, stat'⟩ ∈ ps.entries d x
      · obtain ⟨stat', hx⟩ := hx
        exact ⟨[], x, rest, stat', rfl, hx, fun s' h => (by cases h)⟩
      · rcases List.mem_cons.mp hserver with rfl | hserver
        · exact absurd ⟨stat, hs⟩ hx
        · obtain ⟨before, s, after, stat', hsplit, hs', hnone⟩ := ih hserver
          refine ⟨x :: before, s, after, stat', by rw [hsplit]; rfl, hs', ?_⟩
          intro s' hmem
          rcases List.mem_cons.mp hmem with rfl | hmem
          · intro stat'' h
            exact hx ⟨stat'', h⟩
          · exact hnone s' hmem

/-- The directory that is listed is the one that the first server with the name has, if that server
has a directory. -/
theorem stat_eq_of_mem_directoryEntries (h : ps.Serve u d) {e : Entry}
    (he : e ∈ (ps.merged u d).directoryEntries) {before after : List String} {s : String}
    (hsplit : u.servers = before ++ s :: after) (hs : ⟨e.name, stat⟩ ∈ ps.entries d s)
    (hdir : stat.isDirectory = true)
    (hnone : ∀ s' ∈ before, ∀ stat', ⟨e.name, stat'⟩ ∉ ps.entries d s') : stat = e.stat := by
  obtain ⟨x, hx, rfl⟩ := List.mem_map.mp he
  dsimp only at hs hnone ⊢
  have hfirst := Merge.find?_of_mem_firstOfEach hx
  -- the search for a directory of the name passes over the servers before this one
  have hbefore : (before.flatMap fun s => Merge.sightingsOf s (ps.entries d s)).find?
      (fun y => y.stat.isDirectory && y.name == x.name) = none := by
    refine List.find?_eq_none.mpr ?_
    intro y hy hfits
    obtain ⟨s', hs', hy⟩ := List.mem_flatMap.mp hy
    obtain ⟨entry, hentry, rfl⟩ := List.mem_map.mp hy
    have hname : entry.name = x.name := eq_of_beq (Bool.and_eq_true_iff.mp hfits).2
    refine hnone s' hs' entry.stat ?_
    rw [← hname]
    exact hentry
  -- and finds it here, where a name is listed once
  have hhere : (⟨x.name, s, stat⟩ : Sighting) ∈ Merge.sightingsOf s (ps.entries d s) :=
    List.mem_map.mpr ⟨_, hs, rfl⟩
  rw [Merge.directories, merged, hsplit, List.find?_filter] at hfirst
  simp only [Bool.decide_and, Bool.decide_eq_true] at hfirst
  rw [List.flatMap_append, List.find?_append, hbefore, Option.none_or, List.flatMap_cons,
    List.find?_append] at hfirst
  cases hy : (Merge.sightingsOf s (ps.entries d s)).find?
      (fun y => y.stat.isDirectory && y.name == x.name) with
  | none =>
      have hno := List.find?_eq_none.mp hy _ hhere
      rw [hdir, beq_self_eq_true] at hno
      exact absurd rfl hno
  | some y =>
      rw [hy, Option.some_or] at hfirst
      cases hfirst
      obtain ⟨entry, hentry, rfl⟩ := List.mem_map.mp (List.mem_of_find?_eq_some hy)
      have hserver : s ∈ u.servers := by
        rw [hsplit]
        exact List.mem_append_right before List.mem_cons_self
      exact (h.consistent s hserver).stat_eq hserver hs hentry

/-- Of two places in a list one is before the other, unless they are the same. -/
theorem mem_or_mem_of_append_cons {b b' a a' : List String} {s s' : String}
    (h : b ++ s :: a = b' ++ s' :: a') : s ∈ b' ∨ s' ∈ b ∨ s = s' := by
  induction b generalizing b' with
  | nil =>
      cases b' with
      | nil =>
          cases h
          exact .inr (.inr rfl)
      | cons x b' =>
          cases h
          exact .inl List.mem_cons_self
  | cons x b ih =>
      cases b' with
      | nil =>
          cases h
          exact .inr (.inl List.mem_cons_self)
      | cons y b' =>
          have htail : b ++ s :: a = b' ++ s' :: a' := (List.cons.inj h).2
          rcases ih htail with hs | hs' | heq
          · exact .inl (List.mem_cons_of_mem y hs)
          · exact .inr (.inl (List.mem_cons_of_mem x hs'))
          · exact .inr (.inr heq)

/-- **A listed directory is the first of its name unless a file comes before.** -/
theorem firstLists_iff (h : ps.Serve u d) {e : Entry}
    (he : e ∈ (ps.merged u d).directoryEntries) :
    ps.FirstLists u d e.name e.stat ↔ ¬ ps.FileFirst u d e.name := by
  have hdir := Merge.isDirectory_of_mem_directoryEntries he
  constructor
  · rintro ⟨before, s, after, hsplit, hs, hnone⟩
    rintro ⟨before', s', after', stat, hsplit', hs', hfile, hfiles⟩
    -- the server of the directory comes before the server of the file, after it or is the same
    rcases mem_or_mem_of_append_cons (hsplit.symm.trans hsplit') with hmem | hmem | rfl
    · rw [hfiles s hmem e.stat hs] at hdir
      cases hdir
    · exact hnone s' hmem stat hs'
    · have hserver : s ∈ u.servers := by
        rw [hsplit]
        exact List.mem_append_right before List.mem_cons_self
      rw [(h.consistent s hserver).stat_eq hserver hs hs', hfile] at hdir
      cases hdir
  · intro hfirst
    obtain ⟨x, hx, rfl⟩ := List.mem_map.mp he
    obtain ⟨hserver, hlist⟩ := mem_merged.mp (List.mem_filter.mp (Merge.mem_firstOfEach hx)).1
    obtain ⟨before, s, after, stat, hsplit, hs, hnone⟩ := exists_first hserver hlist
    by_cases hstat : stat.isDirectory = true
    · have heq := stat_eq_of_mem_directoryEntries h he hsplit hs hstat hnone
      rw [heq] at hs
      exact ⟨before, s, after, hsplit, hs, hnone⟩
    · refine absurd ⟨before, s, after, stat, hsplit, hs, by simpa using hstat, ?_⟩ hfirst
      intro s' hs' stat' hlist'
      exact absurd hlist' (hnone s' hs' stat')

theorem isListed_of_mem_directoryEntries {e : Entry}
    (he : e ∈ (ps.merged u d).directoryEntries) : ps.IsListed u d e.name := by
  obtain ⟨x, hx, rfl⟩ := List.mem_map.mp he
  obtain ⟨hserver, hlist⟩ := mem_merged.mp (List.mem_filter.mp (Merge.mem_firstOfEach hx)).1
  exact ⟨x.server, hserver, x.stat, hlist⟩

/-- **A listed file is always found, and a listed directory exactly if its name leads to it.**  A
name without a tag leads to it unless a server with a file of that name comes before all that have a
directory; a name that reads as one with a tag has to lead to the like of it where it is addressed.
-/
theorem getattr_listed_iff (h : ps.Serve u d) (hd : Address.ofPath d = ⟨"", d⟩)
    {listing : List Entry} (hl : ps.run (u.readdir d) = .ok listing) {e : Entry}
    (he : e ∈ listing) :
    ps.run (u.getattr (Path.under d e.name)) = .ok e.stat ↔
      (e.stat.isDirectory = true →
        if Address.ofPath e.name = ⟨"", e.name⟩ then ¬ ps.FileFirst u d e.name
        else ps.Finds u (Address.ofPath (Path.under d e.name)) e.stat) := by
  rw [getattr_iff h.connected]
  rw [run_readdir h hd] at hl
  split at hl
  · cases hl
  cases hl
  rw [Merge.mem_listing] at he
  rcases he with hdir | ⟨s, hs, rfl⟩
  · rw [forall_prop_of_true (Merge.isDirectory_of_mem_directoryEntries hdir)]
    split
    · next hbare =>
      have haddress := Address.ofPath_under d e.name
      rw [hbare] at haddress
      rw [haddress, ← firstLists_iff h hdir,
        ← firstHas_under_iff h (isListed_of_mem_directoryEntries hdir)]
      exact finds_iff_first rfl
    · exact Iff.rfl
  · have hfile : s.stat.isDirectory = false := by simpa using (List.mem_filter.mp hs).2
    constructor
    · intro _ hdir
      rw [hfile] at hdir
      cases hdir
    · intro _
      exact finds_file h hs

/-! A file on one server and a directory of its name on a later one. -/

def sampleFile : Stat := { mode := Mode.regular ||| 0o644 }

def sampleDirectory : Stat := { mode := Mode.directory ||| 0o755 }

def sampleStat (server : String) : Stat :=
  if server = "alpha" then sampleFile else sampleDirectory

def sample : Peers where
  connected _ := true
  reply server
    | .readdir _ => .ok [⟨"x", sampleStat server⟩]
    | .getattr path => if path = "/x" then .ok (sampleStat server) else .error .notFound
    | _ => .error .notFound

def sampleUnion : Union where
  servers := ["alpha", "beta"]
  ascending := by decide

theorem under_slash_eq_iff (name : String) : Path.under "/" name = "/x" ↔ name = "x" := by
  have hunder : (Path.under "/" name).toList = '/' :: name.toList := by
    rw [Path.under, if_pos (by decide), String.toList_append]
    rfl
  rw [← String.toList_inj, ← String.toList_inj, hunder]
  rw [show "/x".toList = '/' :: "x".toList from rfl, List.cons.injEq, and_iff_right rfl]

theorem serve_sample : sample.Serve sampleUnion "/" := by
  refine ⟨fun _ _ => rfl, fun s _ => ⟨rfl, by simp [entries, sample], ?_⟩, by decide, by decide,
    by decide⟩
  intro name _ stat
  show (if Path.under "/" name = "/x" then Except.ok (sampleStat s) else .error Code.notFound) = _ ↔
    Entry.mk name stat ∈ [⟨"x", sampleStat s⟩]
  have hpath := under_slash_eq_iff name
  rw [List.mem_singleton, Entry.mk.injEq]
  by_cases hname : name = "x"
  · rw [if_pos (hpath.mpr hname), Except.ok.injEq]
    rw [and_iff_right hname]
    exact eq_comm
  · rw [if_neg fun h => hname (hpath.mp h)]
    constructor
    · intro h
      cases h
    · intro h
      exact absurd h.1 hname

theorem run_readdir_sample :
    sample.run (sampleUnion.readdir "/") = .ok (sample.merged sampleUnion "/").listing :=
  (run_readdir serve_sample (by decide)).trans (if_neg (by decide))

theorem mem_listing_sample :
    (⟨"x", sampleDirectory⟩ : Entry) ∈ (sample.merged sampleUnion "/").listing := by
  have hfirst : (⟨"x", "beta", sampleDirectory⟩ : Sighting) ∈
      Merge.firstOfEach (sample.merged sampleUnion "/").directories := by decide
  exact Merge.mem_listing.mpr (.inl (List.mem_map.mpr ⟨_, hfirst, rfl⟩))

theorem getattr_listed_iff_sample :
    sample.run (sampleUnion.getattr (Path.under "/" "x")) = .ok sampleDirectory ↔
      (sampleDirectory.isDirectory = true →
        if Address.ofPath "x" = ⟨"", "x"⟩ then ¬ sample.FileFirst sampleUnion "/" "x"
        else sample.Finds sampleUnion (Address.ofPath (Path.under "/" "x")) sampleDirectory) :=
  getattr_listed_iff (e := ⟨"x", sampleDirectory⟩) serve_sample (by decide) run_readdir_sample
    mem_listing_sample

/-- **Not every listed entry is found**: the directory is listed, and the file is found. -/
theorem not_always_found :
    ¬ ∀ (ps : Peers) (u : Union) (d : String), ps.Serve u d → Address.ofPath d = ⟨"", d⟩ →
      ∀ listing, ps.run (u.readdir d) = .ok listing → ∀ e ∈ listing,
        ps.run (u.getattr (Path.under d e.name)) = .ok e.stat := by
  intro hall
  have hlisted := hall sample sampleUnion "/" serve_sample (by decide) _
    run_readdir_sample _ mem_listing_sample
  have haddress : Address.ofPath (Path.under "/" "x") = ⟨"", "/x"⟩ := by decide
  have hfinds := (getattr_iff (fun _ _ => rfl)).mp hlisted
  rw [haddress] at hfinds
  cases hfinds with
  | tagged hne => exact hne rfl
  | first _ hfirst =>
      -- the first server that has anything at the path is alpha, and that is a file
      obtain ⟨before, s, after, hsplit, hs, hnone⟩ := hfirst
      have hfile : sample.reply "alpha" (.getattr "/x") = .ok sampleFile := rfl
      cases before with
      | nil =>
          obtain ⟨rfl, -⟩ := List.cons.inj hsplit
          rw [hfile] at hs
          exact absurd (Except.ok.inj hs) (by decide)
      | cons x before =>
          obtain ⟨rfl, -⟩ := List.cons.inj hsplit
          exact hnone "alpha" List.mem_cons_self sampleFile hfile

end Peers

end UnionFS
