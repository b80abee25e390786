import Mathlib.Data.List.Nodup
import UnionFS.Proofs.Union.Names

/-!
# Verdicts

A look-up without a tag goes to all connected servers, and what they answer makes one verdict: the
first of them in the order of names that succeeds counts, and if none does the last one's error
(`Decides`).  A success is not voted down: whoever else is there, and fails or is not connected, and
whatever order servers are added or answer in, makes no difference (`governed`).
-/

namespace UnionFS

/-- Names in strict order are determined by which they are. -/
theorem eq_of_mem_iff {names names' : List String} (h : names.Pairwise (· < ·))
    (h' : names'.Pairwise (· < ·)) (hmem : ∀ x, x ∈ names ↔ x ∈ names') : names = names' := by
  have hnodup : names.Nodup := h.imp fun hlt => String.ne_of_lt hlt
  have hnodup' : names'.Nodup := h'.imp fun hlt => String.ne_of_lt hlt
  refine List.Perm.eq_of_pairwise ?_ h h' ((List.perm_ext_iff_of_nodup hnodup hnodup').mpr hmem)
  exact fun a b _ _ hab hba => absurd hba (String.lt_asymm hab)

/-! ## Unions by their servers -/

namespace Union

variable {u u' : Union} {names order : List String} {server : String}

theorem ext_of_mem (h : ∀ x, x ∈ u.servers ↔ x ∈ u'.servers) : u = u' := by
  have hservers := eq_of_mem_iff u.ascending u'.ascending h
  cases u
  cases u'
  cases hservers
  rfl

/-- The union with servers that are added one after another.  One of a name that is there already is
not added. -/
def addEach (u : Union) (names : List String) : Union :=
  names.foldl (fun u name => (u.add name).getD u) u

theorem mem_getD_add {name : String} :
    server ∈ ((u.add name).getD u).servers ↔ server = name ∨ server ∈ u.servers := by
  cases hadd : u.add name with
  | some u' => exact mem_servers_of_add hadd
  | none =>
      -- a name that is not added is there already
      have hmem : name ∈ u.servers := by
        by_contra habsent
        rw [add, dif_neg habsent] at hadd
        cases hadd
      refine ⟨.inr, fun h => ?_⟩
      rcases h with rfl | h
      · exact hmem
      · exact h

theorem mem_addEach : server ∈ (u.addEach names).servers ↔ server ∈ u.servers ∨ server ∈ names := by
  induction names generalizing u with
  | nil => simp [addEach]
  | cons name rest ih =>
      have hrest : server ∈ (((u.add name).getD u).addEach rest).servers ↔ _ := ih
      rw [mem_getD_add] at hrest
      rw [addEach, List.foldl_cons, ← addEach, hrest, List.mem_cons, or_assoc, or_left_comm]

/-- The order in which servers are added makes no difference. -/
theorem addEach_congr (h : ∀ x, x ∈ names ↔ x ∈ order) : u.addEach names = u.addEach order := by
  refine ext_of_mem fun x => ?_
  rw [mem_addEach, mem_addEach, h x]

end Union

/-! ## The verdict -/

namespace Peers

variable {α : Type} {ps ps' : Peers} {u u' : Union} {r : Request} {up : List String}
  {reply reply' : String → Outcome α} {o o' : Outcome (String × α)}

/-- **What answers come to**, of servers in ascending order. -/
inductive Decides (up : List String) (reply : String → Outcome α) : Outcome (String × α) → Prop
  where
  /-- The least of the servers that succeed. -/
  | success {server : String} {value : α} : server ∈ up → reply server = .ok value →
    (∀ other ∈ up, ∀ value', reply other = .ok value' → server ≤ other) →
      Decides up reply (.ok (server, value))
  /-- None succeeds, and the greatest counts. -/
  | failure {server : String} {code : Code} : server ∈ up → reply server = .error code →
    (∀ other ∈ up, other ≤ server) → (∀ other ∈ up, ∀ value, reply other ≠ .ok value) →
      Decides up reply (.error code)
  | nobody : up = [] → Decides up reply (.error .notFound)

theorem decides_firstSuccess (hnonempty : up ≠ []) (hascending : up.Pairwise (· < ·))
    (last : Code) :
    Decides up reply (Union.firstSuccess last (up.map fun s => (s, reply s))) := by
  induction up generalizing last with
  | nil => exact absurd rfl hnonempty
  | cons s rest ih =>
      obtain ⟨hbelow, hrest⟩ := List.pairwise_cons.mp hascending
      rw [List.map_cons]
      cases hs : reply s with
      | ok value =>
          refine .success List.mem_cons_self hs fun other hother _ _ => ?_
          rcases List.mem_cons.mp hother with rfl | hother
          · exact String.le_refl _
          · exact Std.le_of_lt (hbelow other hother)
      | error code =>
          show Decides (s :: rest) reply (Union.firstSuccess code _)
          by_cases hnil : rest = []
          · -- the only one left is the greatest
            subst hnil
            refine .failure List.mem_cons_self hs (fun other hother => ?_)
              fun other hother value hvalue => ?_
            · obtain rfl := List.mem_singleton.mp hother
              exact String.le_refl other
            · rw [List.mem_singleton.mp hother, hs] at hvalue
              cases hvalue
          · have hlater := ih hnil hrest code
            generalize Union.firstSuccess code _ = o at hlater ⊢
            cases hlater with
            | success hmem hreply hleast =>
                refine .success (List.mem_cons_of_mem s hmem) hreply fun other hother v hv => ?_
                rcases List.mem_cons.mp hother with rfl | hother
                · rw [hs] at hv
                  cases hv
                · exact hleast other hother v hv
            | failure hmem hreply hgreatest hnone =>
                refine .failure (List.mem_cons_of_mem s hmem) hreply (fun other hother => ?_)
                  fun other hother v hv => ?_
                · rcases List.mem_cons.mp hother with rfl | hother
                  · exact Std.le_of_lt (hbelow _ hmem)
                  · exact hgreatest other hother
                · rcases List.mem_cons.mp hother with rfl | hother
                  · rw [hs] at hv
                    cases hv
                  · exact hnone other hother v hv
            | nobody h => exact absurd h hnil

/-- A verdict with a success is that of any servers of which the same ones succeed. -/
theorem Decides.eq_of_success {up' : List String} (h : Decides up reply o)
    (h' : Decides up' reply' o')
    (hsame : ∀ s v, s ∈ up ∧ reply s = .ok v ↔ s ∈ up' ∧ reply' s = .ok v)
    (hsome : ∃ s v, s ∈ up ∧ reply s = .ok v) : o = o' := by
  obtain ⟨x, v, hx⟩ := hsome
  have hx' := (hsame x v).mp hx
  cases h with
  | @success server value hmem hreply hleast =>
      cases h' with
      | @success server' value' hmem' hreply' hleast' =>
          have hthere := (hsame server value).mp ⟨hmem, hreply⟩
          have hhere := (hsame server' value').mpr ⟨hmem', hreply'⟩
          have hserver : server = server' := String.le_antisymm
            (hleast server' hhere.1 value' hhere.2) (hleast' server hthere.1 value hthere.2)
          have hvalue : value = value' := by
            rw [hserver, hhere.2] at hreply
            exact (Except.ok.inj hreply).symm
          rw [hserver, hvalue]
      | failure _ _ _ hnone => exact absurd hx'.2 (hnone x hx'.1 v)
      | nobody hnil =>
          rw [hnil] at hx'
          cases hx'.1
  | failure _ _ _ hnone => exact absurd hx.2 (hnone x hx.1 v)
  | nobody hnil =>
      rw [hnil] at hx
      cases hx.1

/-- What the connected servers' answers to a request come to. -/
def verdict (ps : Peers) (u : Union) (r : Request) : Outcome (String × r.Answer) :=
  Union.firstSuccess .notFound ((ps.up u).map fun s => (s, ps.reply s r))

theorem ascending_up (ps : Peers) (u : Union) : (ps.up u).Pairwise (· < ·) :=
  u.ascending.filter _

theorem decides_verdict (ps : Peers) (u : Union) (r : Request) :
    Decides (ps.up u) (ps.reply · r) (ps.verdict u r) := by
  by_cases hnil : ps.up u = []
  · rw [verdict, hnil]
    exact .nobody rfl
  · exact decides_firstSuccess hnil (ps.ascending_up u) .notFound

/-- Servers that are not connected have no say. -/
theorem verdict_congr (hup : ∀ s, s ∈ ps.up u ↔ s ∈ ps'.up u')
    (hreply : ∀ s ∈ ps.up u, ps.reply s r = ps'.reply s r) : ps.verdict u r = ps'.verdict u' r := by
  have hsame : ps.up u = ps'.up u' := eq_of_mem_iff (ps.ascending_up u) (ps'.ascending_up u') hup
  rw [verdict, verdict, ← hsame]
  exact congrArg _ (List.map_congr_left fun s hs => by rw [hreply s hs])

/-- Where a server succeeds, those that fail have no say. -/
theorem verdict_eq_of_success
    (hsame : ∀ s v, s ∈ ps.up u ∧ ps.reply s r = .ok v ↔ s ∈ ps'.up u' ∧ ps'.reply s r = .ok v)
    (hsome : ∃ s v, s ∈ ps.up u ∧ ps.reply s r = .ok v) : ps.verdict u r = ps'.verdict u' r :=
  (ps.decides_verdict u r).eq_of_success (ps'.decides_verdict u' r) hsame hsome

/-! ## Answers that come in -/

/-- The answers of servers in the order in which they were asked, of those that have come in, in
whatever order. -/
def inOrder (asked : List String) (arrivals : List (String × α)) : List (String × α) :=
  asked.filterMap fun s => (arrivals.lookup s).map (s, ·)

theorem inOrder_of_perm {f : String → α} (hnodup : up.Nodup) {arrivals : List (String × α)}
    (h : arrivals.Perm (up.map fun s => (s, f s))) : inOrder up arrivals = up.map fun s => (s, f s) := by
  have hkeys : (arrivals.map (·.1)).Nodup := by
    rw [(h.map (·.1)).nodup_iff, List.map_map]
    exact (List.map_id up).symm ▸ hnodup
  have hlookup : ∀ s ∈ up, arrivals.lookup s = some (f s) := by
    intro s hs
    have hmem : (s, f s) ∈ arrivals := h.mem_iff.mpr (List.mem_map.mpr ⟨s, hs, rfl⟩)
    obtain ⟨before, after, rfl⟩ := List.append_of_mem hmem
    refine List.lookup_eq_some_iff.mpr ⟨before, after, rfl, fun x hx => ?_⟩
    -- an earlier arrival is of another server
    rw [List.map_append, List.map_cons, List.nodup_append] at hkeys
    have hne := hkeys.2.2 x.1 (List.mem_map_of_mem hx) s List.mem_cons_self
    simpa using hne.symm
  have heach : ∀ s ∈ up, (arrivals.lookup s).map (s, ·) = some (s, f s) := by
    intro s hs
    rw [hlookup s hs]
    rfl
  rw [inOrder, List.filterMap_congr heach]
  exact congrFun List.filterMap_eq_map up

end Peers

/-! ## Look-ups -/

/-- An operation that takes what one of the servers gives. -/
inductive LookUp where
  | getattr
  | access (mask : UInt32)
  | openFile (flags : UInt32)
  /-- A read without a handle. -/
  | read (size offset : UInt64)

namespace LookUp

def request : LookUp → String → Request
  | getattr, path => .getattr path
  | access mask, path => .access path mask
  | openFile flags, path => .openFile path flags
  | read size offset, path => .read path size offset

/-- What is given if it is not refused. -/
abbrev Result : LookUp → Type
  | getattr => Stat
  | access _ => Unit
  | openFile _ => FileHandle
  | read _ _ => Bytes

def plan (u : Union) (path : String) : (k : LookUp) → UnionPlan (Outcome k.Result)
  | getattr => u.getattr path
  | access mask => u.access path mask
  | openFile flags => u.openFile path flags
  | read size offset => u.read path size offset none

/-- What is given of a server's answer: of an opened file the server, and else the answer. -/
def give : (k : LookUp) → {path : String} → String × (k.request path).Answer → k.Result
  | getattr, _, x => x.2
  | access _, _, x => x.2
  | openFile _, _, x => ⟨x.1⟩
  | read _ _, _, x => x.2

end LookUp

namespace Peers

variable {path : String}

theorem run_askConnected (ps : Peers) (u : Union) (r : Request) :
    ps.run (u.askConnected (Union.ask · r)) = ps.verdict u r := by
  rw [Union.askConnected, run_bind, run_bind, run_connected, run_askEach]
  rfl

/-- **A look-up without a tag gives what the verdict says.** -/
theorem run_plan (ps : Peers) (u : Union) (k : LookUp) (hpath : (Address.ofPath path).server = "") :
    ps.run (k.plan u path) =
      (ps.verdict u (k.request (Address.ofPath path).path)).map k.give := by
  cases k with
  | getattr =>
      rw [LookUp.plan, Union.getattr, Union.lookup, Union.route_of_untagged hpath, run_bind]
      exact congrArg (Except.map Prod.snd) (ps.run_askConnected u _)
  | access mask =>
      rw [LookUp.plan, Union.access, Union.lookup, Union.route_of_untagged hpath, run_bind]
      exact congrArg (Except.map Prod.snd) (ps.run_askConnected u _)
  | openFile flags =>
      rw [LookUp.plan, Union.openFile, Union.lookup, Union.route_of_untagged hpath, run_bind]
      exact congrArg (Except.map (LookUp.openFile flags).give) (ps.run_askConnected u _)
  | read size offset =>
      rw [LookUp.plan, Union.read, Union.route_of_untagged hpath]
      show ps.run (u.askConnected _ >>= fun x => pure (x.map (·.2))) = _
      rw [run_bind]
      exact congrArg (Except.map Prod.snd) (ps.run_askConnected u _)

/-- A look-up for a path without a tag is governed by success. -/
structure Governed (ps : Peers) (u : Union) (k : LookUp) (path : String) : Prop where
  /-- The least connected server that succeeds counts, or else the greatest that is connected. -/
  decided : ∃ verdict, Decides (ps.up u) (ps.reply · (k.request (Address.ofPath path).path)) verdict
    ∧ ps.run (k.plan u path) = verdict.map k.give
  /-- The order in which servers are added makes no difference. -/
  added : ∀ names order : List String, order.Perm names →
    ps.run (k.plan (u.addEach order) path) = ps.run (k.plan (u.addEach names) path)
  /-- The order in which answers come in makes no difference. -/
  finished : ∀ arrivals, arrivals.Perm ((ps.up u).map fun s =>
      (s, ps.reply s (k.request (Address.ofPath path).path))) →
    ps.run (k.plan u path) =
      (Union.firstSuccess .notFound (inOrder (ps.up u) arrivals)).map k.give
  /-- Servers that are not connected make no difference, whether they are there or not. -/
  disconnected : ∀ (ps' : Peers) (u' : Union), (∀ s, s ∈ ps.up u ↔ s ∈ ps'.up u') →
    (∀ s ∈ ps.up u, ps.reply s (k.request (Address.ofPath path).path) =
      ps'.reply s (k.request (Address.ofPath path).path)) →
      ps.run (k.plan u path) = ps'.run (k.plan u' path)
  /-- Where a server succeeds, servers that fail make no difference, whether they are there or not. -/
  failing : ∀ (ps' : Peers) (u' : Union),
    (∃ s v, s ∈ ps.up u ∧ ps.reply s (k.request (Address.ofPath path).path) = .ok v) →
    (∀ s v, s ∈ ps.up u ∧ ps.reply s (k.request (Address.ofPath path).path) = .ok v ↔
      s ∈ ps'.up u' ∧ ps'.reply s (k.request (Address.ofPath path).path) = .ok v) →
      ps.run (k.plan u path) = ps'.run (k.plan u' path)

/-- **Look-ups without a tag are governed by success, not by position.** -/
theorem governed (ps : Peers) (u : Union) (k : LookUp) (path : String)
    (hpath : (Address.ofPath path).server = "") : ps.Governed u k path where
  decided := ⟨_, ps.decides_verdict u _, ps.run_plan u k hpath⟩
  added names order horder := by
    rw [Union.addEach_congr fun x => horder.mem_iff]
  finished arrivals harrivals := by
    have hnodup : (ps.up u).Nodup := (ps.ascending_up u).imp fun h => String.ne_of_lt h
    rw [ps.run_plan u k hpath, inOrder_of_perm hnodup harrivals, verdict]
  disconnected ps' u' hup hreply := by
    rw [ps.run_plan u k hpath, ps'.run_plan u' k hpath, verdict_congr hup hreply]
  failing ps' u' hsome hsame := by
    rw [ps.run_plan u k hpath, ps'.run_plan u' k hpath, verdict_eq_of_success hsame hsome]

/-! The second of two servers succeeds; a third is not connected. -/

def sampleVoters : Peers where
  connected server := server ≠ "gamma"
  reply server
    | .getattr _ => if server = "beta" then .ok sampleFile else .error .notFound
    | _ => .error .notSupported

theorem governed_sample :
    (Address.ofPath "/f").server = ""
      ∧ sampleVoters.run ((sampleUnion.addEach ["gamma"]).getattr "/f") = .ok sampleFile
      ∧ sampleVoters.Governed (sampleUnion.addEach ["gamma"]) .getattr "/f" :=
  ⟨by decide, rfl, governed sampleVoters _ .getattr "/f" (by decide)⟩

end Peers
end UnionFS
