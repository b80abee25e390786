import UnionFS.Proofs.Network.Write
import UnionFS.Proofs.Wire.Agreement

/-!
# A session at the end of a whole stream

A client and a session on one network, with a stream between them that does not break.  Between two
exchanges the session rests and nothing is on the way (`Network.Serves`).  **An exchange gives the
client exactly what the request comes to on the tree, and leads back to that state**
(`Network.converse_exchange`).
-/

namespace UnionFS

open Dialogue Wire Client

namespace Network

variable {α β : Type} {n : Network} {l : Nat} {s : Session} {t : Tree} {e : Export}
  {patience : UInt64} {limits : Limits}

/-- The stream leads to this session, these bytes of it have arrived and were not read yet, and the
hosts have this tree. -/
structure Stands (n : Network) (l : Nat) (s : Session) (t : Tree) (arrived : Bytes) : Prop where
  line : ∃ line, n.lines[l]? = some line ∧ line.far = .session s ∧ line.arrived = arrived
  tree : n.tree = t

/-- What is sent to a session is heard at once, and what it answers arrives at once. -/
theorem Stands.send {arrived bytes sent : Bytes} {s' : Session} {t' : Tree}
    (h : n.Stands l s t arrived) (hr : s.arrive n.clock t bytes = ⟨s', t', sent⟩) :
    (n.send l bytes).Stands l s' t' (arrived ++ sent) := by
  obtain ⟨line, hline, hfar, harrived⟩ := h.line
  obtain ⟨hlen, -⟩ := List.getElem?_eq_some_iff.mp hline
  rw [Network.send, onLine, hline]
  dsimp only
  rw [Line.deliver_session hfar, h.tree, hr]
  refine ⟨⟨_, List.getElem?_set_self hlen, rfl, ?_⟩, rfl⟩
  show line.arrived ++ sent = arrived ++ sent
  rw [harrived]

/-- The next bytes that have arrived are read. -/
theorem Stands.receive {b more : Bytes} (h : n.Stands l s t (b ++ more)) (patience : UInt64) :
    ∃ n', n.receive patience.toNat l b.length = (.ok b, n') ∧ n'.Stands l s t more := by
  obtain ⟨line, hline, hfar, harrived⟩ := h.line
  obtain ⟨hlen, -⟩ := List.getElem?_eq_some_iff.mp hline
  rw [Network.receive, hline]
  dsimp only
  rw [Line.take?_append harrived]
  exact ⟨_, rfl, ⟨_, List.getElem?_set_self hlen, hfar, rfl⟩, h.tree⟩

/-- **A reply that has arrived is read.** -/
theorem Stands.converse_reads {d : Dialogue Unit α} {b more : Bytes} {a : α} (hd : Reads d b a)
    (k : α → Dialogue Unit β) (h : n.Stands l s t (b ++ more)) (patience : UInt64) :
    ∃ n', (carrier patience).converse l (d >>= k) n = (carrier patience).converse l (k a) n'
      ∧ n'.Stands l s t more := by
  induction hd generalizing n with
  | done a => exact ⟨n, rfl, h⟩
  | @receive rest b b' a _ ih =>
    rw [List.append_assoc] at h
    obtain ⟨n', hreceive, h'⟩ := h.receive patience
    obtain ⟨n'', hlater, h''⟩ := ih h'
    refine ⟨n'', ?_, h''⟩
    show (carrier patience).converse l (.receive b.length fun c => (rest c).bind k) n = _
    rw [Carrier.converse_receive, show (carrier patience).receive l b.length n =
      n.receive patience.toNat l b.length from rfl, hreceive]
    exact hlater

/-- A reply that is all that has arrived. -/
theorem Stands.converse_reads_all {d : Dialogue Unit α} {b : Bytes} {a : α} (hd : Reads d b a)
    (h : n.Stands l s t b) (patience : UInt64) :
    ∃ n', (carrier patience).converse l d n = (.ok a, n') ∧ n'.Stands l s t [] := by
  rw [← List.append_nil b] at h
  obtain ⟨n', hn', h'⟩ := h.converse_reads hd Dialogue.done patience
  rw [show d >>= Dialogue.done = d.bind Dialogue.done from rfl, bind_done] at hn'
  exact ⟨n', hn', h'⟩

/-- The stream leads to a session at rest, and nothing is on the way in either direction. -/
def Serves (n : Network) (l : Nat) (e : Export) (t : Tree) : Prop :=
  ∃ s, n.Stands l s t [] ∧ s.Resting e

theorem converse_say (b : Bytes) (d : Dialogue Unit α) (n : Network) :
    (carrier patience).converse l (do .say b; d) n =
      (carrier patience).converse l d (n.send l b) := by
  show (carrier patience).converse l (.send b d) n = _
  rw [Carrier.converse_send]
  rfl

/-- A request that is answered at once. -/
theorem Serves.converse_request {r : Request} (h : n.Serves l e t) (hfits : e.Fits limits t r)
    (hr : ∀ path data offset, r ≠ .write path data offset) :
    ∃ n', (carrier patience).converse l (exchange limits r) n = (.ok (e.perform t r).1, n')
      ∧ n'.Serves l e t := by
  obtain ⟨s, hn, hs⟩ := h
  obtain ⟨s', hs', harrive⟩ := hs.arrive_request n.clock t hfits.path hr
  obtain ⟨n', hn', h'⟩ := (hn.send harrive).converse_reads_all
    (reads_response hr hfits.answer) patience
  rw [exchange, converse_say]
  exact ⟨n', hn', s', h', hs'⟩

variable {path : String} {data : Bytes} {offset : UInt64} {q : Path}

/-- Once a write's file is open the client sends the data, and takes the size for its answer. -/
theorem Stands.converse_finishWrite {more : Bytes} (data : Bytes)
    (h : n.Stands l s t (ofCode 0 ++ more)) (patience : UInt64) :
    ∃ n' : Network, (carrier patience).converse l (finishWrite data) n =
        (carrier patience).converse l (unlessRefused readSize) (n'.send l data)
      ∧ n'.Stands l s t more := by
  obtain ⟨n', hn', h'⟩ := h.converse_reads (reads_code 0)
    (fun code => if code < 0 then return .error code else do .say data; unlessRefused readSize)
    patience
  refine ⟨n', hn'.trans ?_, h'⟩
  rw [if_neg (by decide), converse_say]

/-- A write whose file cannot be opened. -/
theorem Serves.converse_refused {c : Code} (h : n.Serves l e t)
    (hp : (Utf8.encode path).length ≤ e.maxPath.toNat)
    (ho : e.openForWrite t path (UInt64.ofNat data.length) = .error c) :
    ∃ n', (carrier patience).converse l (exchange limits (.write path data offset)) n =
        (.ok (.error c), n')
      ∧ n'.Serves l e t := by
  obtain ⟨s, hn, hs⟩ := h
  obtain ⟨s', hs', harrive⟩ := Session.arrive_refused hs n.clock offset hp ho
  obtain ⟨n', hn', h'⟩ := (hn.send harrive).converse_reads_all
    (reads_write_refused (e.refuses_openForWrite t path _ c ho)) patience
  rw [exchange, converse_say]
  exact ⟨n', hn', s', h', hs'⟩

/-- A write whose file can be opened is carried out. -/
theorem Serves.converse_opened (h : n.Serves l e t)
    (hp : (Utf8.encode path).length ≤ e.maxPath.toNat) (hlen : data.length < 2 ^ 64)
    (ho : e.openForWrite t path (UInt64.ofNat data.length) = .ok q) :
    ∃ n', (carrier patience).converse l (exchange limits (.write path data offset)) n =
        (.ok (Export.writeAt q offset data t).1, n')
      ∧ n'.Serves l e (Export.writeAt q offset data t).2 := by
  obtain ⟨s, hn, hs⟩ := h
  have hmax := Export.length_le_of_openForWrite hlen ho
  have hreads := reads_replySize (σ := Unit) (Export.refuses_writeAt t q offset data)
  rw [exchange_write, converse_say]
  by_cases hd : data = []
  · -- the session is done when it has heard the opening, and sends both replies at once
    subst hd
    obtain ⟨s', hs', harrive⟩ := Session.arrive_opened_nil hs n.clock offset hp ho
    obtain ⟨n₁, hn₁, h₁⟩ := (hn.send harrive).converse_finishWrite [] patience
    have hnothing : s'.arrive n₁.clock t [] = ⟨s', t, []⟩ := rfl
    have h₂ := h₁.send hnothing
    rw [List.append_nil] at h₂
    obtain ⟨n₃, hn₃, h₃⟩ := h₂.converse_reads_all hreads patience
    rw [Export.writeAt_nil]
    exact ⟨n₃, hn₁.trans hn₃, s', h₃, hs'⟩
  · -- the session waits for the data, and sends the second reply when it has them
    obtain ⟨s', hs', harrive⟩ := Session.arrive_opened hs n.clock offset hp hd hmax ho
    have hfirst := hn.send harrive
    rw [List.nil_append, ← List.append_nil (ofCode 0)] at hfirst
    obtain ⟨n₁, hn₁, h₁⟩ := hfirst.converse_finishWrite data patience
    obtain ⟨s'', hs'', hdata⟩ := Session.arrive_data hs' n₁.clock t hd hmax
    obtain ⟨n₂, hn₂, h₂⟩ := (h₁.send hdata).converse_reads_all hreads patience
    exact ⟨n₂, hn₁.trans hn₂, s'', h₂, hs''⟩

/-- **An exchange over a whole stream comes to what the request comes to**, and the session is at
rest again. -/
theorem Serves.converse_exchange {r : Request} (h : n.Serves l e t) (hfits : e.Fits limits t r)
    (patience : UInt64) :
    ∃ n', (carrier patience).converse l (exchange limits r) n = (.ok (e.perform t r).1, n')
      ∧ n'.Serves l e (e.perform t r).2 := by
  by_cases hr : ∀ path data offset, r ≠ .write path data offset
  · rw [Export.perform_tree hr]
    exact h.converse_request hfits hr
  · obtain ⟨path, data, offset, rfl⟩ : ∃ path data offset, r = .write path data offset := by
      simpa using hr
    have hp : (Utf8.encode path).length ≤ e.maxPath.toNat := hfits.path
    have hlen : data.length < blockLimit := hfits.data
    rw [Export.perform, Export.write]
    cases ho : e.openForWrite t path (UInt64.ofNat data.length) with
    | error c => exact h.converse_refused hp ho
    | ok q => exact h.converse_opened hp (Nat.lt_trans hlen (by decide)) ho

end Network

namespace Client.Connection

variable {α : Type} {c : Connection Nat} {n : Network} {e : Export} {t : Tree}

/-- The connection counts as connected, and its stream leads to a session at rest that serves the
export. -/
structure Joins (c : Connection Nat) (n : Network) (e : Export) (t : Tree) : Prop where
  connected : c.connected = true
  line : ∃ l, c.line = some l ∧ n.Serves l e t

/-- **Over a whole stream a question is answered as the request comes to**, and the connection stays
as it is. -/
theorem Joins.run_ask {r : Request} (h : c.Joins n e t) (hfits : e.Fits c.config.limits t r)
    (patience : UInt64) :
    ∃ n', (∀ next : Outcome r.Answer → Exchanges α,
        (Plan.ask r next : Exchanges α).run (single (Network.carrier patience) c.config.limits)
            c n =
          (next (e.perform t r).1).run (single (Network.carrier patience) c.config.limits) c n')
      ∧ c.Joins n' e (e.perform t r).2 := by
  obtain ⟨l, hline, hserves⟩ := h.line
  obtain ⟨n', hn', hserves'⟩ := hserves.converse_exchange hfits patience
  refine ⟨n', fun next => ?_, h.connected, l, hline, hserves'⟩
  rw [Connection.run_ask, transact_eq hline, hn']

end Client.Connection
end UnionFS
