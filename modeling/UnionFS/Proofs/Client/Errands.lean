import UnionFS.Proofs.Client.Apart
import UnionFS.Proofs.Client.Grammar
import UnionFS.Proofs.Client.Tap
import UnionFS.Proofs.Client.Write

/-!
# What a connection does on its stream

All that a client can do with one connection, and what it leads to (`Settles`): a request is made in
exchanges of which each has one complete reply, or one of them breaks off and the stream is dropped.
There is nothing between the two (`settles_run`).
-/

namespace UnionFS.Client

open Dialogue Wire

variable {S L α : Type} {limits : Limits} {k : Nat}

/-! ## Exchanges -/

/-- On this stream a request was made, and one complete reply was taken and no byte more. -/
structure Exchanged (limits : Limits) (k : Nat) (r : Request) (signals : List Signal)
    (o : Outcome r.Answer) : Prop where
  within : ∀ x ∈ signals, x.Within k
  complete : Complete limits r (Signal.allSent signals) (Signal.allHeard signals) o

/-- On this stream a request was made and broke off, but not because it was refused. -/
structure Severed (limits : Limits) (k : Nat) (r : Request) (signals : List Signal) : Prop where
  within : ∀ x ∈ signals, x.Within k
  unrefused : ∀ said c, ¬ Complete limits r said (Signal.allHeard signals) (.error c)

/-- Each exchange of the plan has had its reply. -/
inductive Answered (limits : Limits) (k : Nat) : Exchanges α → List Signal → α → Prop where
  | done (a : α) : Answered limits k (.done a) [] a
  | ask {q : Request} {next : Outcome q.Answer → Exchanges α} {signals more : List Signal}
    {o : Outcome q.Answer} {a : α} :
    Exchanged limits k q signals o → Answered limits k (next o) more a →
    Answered limits k (.ask q next) (signals ++ more) a

/-- An exchange of the plan has broken off, after others that have had their replies, and the stream
has been dropped. -/
inductive Interrupted (limits : Limits) (k : Nat) : Exchanges α → List Signal → Prop where
  | severed {q : Request} {next : Outcome q.Answer → Exchanges α} {signals : List Signal} :
    Severed limits k q signals → Interrupted limits k (.ask q next) (signals ++ [.dropped k])
  | ask {q : Request} {next : Outcome q.Answer → Exchanges α} {signals more : List Signal}
    {o : Outcome q.Answer} :
    Exchanged limits k q signals o → Interrupted limits k (next o) more →
    Interrupted limits k (.ask q next) (signals ++ more)

namespace Connection

variable {net : Carrier (StateM S) L} {c : Connection (Numbered L)} {l : Numbered L}

/-- One exchange, as it is noted. -/
theorem transact_tapped (hnet : net.Exact) (hline : c.line = some l)
    (d : Dialogue Unit (Outcome α)) (t : Tap S) :
    ∃ signals t', (∀ x ∈ signals, x.Within l.number)
      ∧ ((∃ o, c.transact net.tapped d t = ((o, c), t') ∧ t'.log = t.log ++ signals
          ∧ Runs d (Signal.allSent signals) (Signal.allHeard signals) o)
        ∨ ∃ code, c.transact net.tapped d t = ((.error code, c.lost), t')
          ∧ t'.log = t.log ++ (signals ++ [.dropped l.number])
          ∧ Breaks d (Signal.allHeard signals)) := by
  obtain ⟨signals, hlog, hwithin, hd⟩ := Carrier.converse_tapped l hnet d t
  rw [transact_eq hline]
  generalize net.tapped.converse l d t = x at hlog hd ⊢
  obtain ⟨result, t'⟩ := x
  rcases hd with ⟨o, rfl, hruns⟩ | ⟨e, rfl, hbreaks⟩
  · exact ⟨signals, t', hwithin, .inl ⟨o, rfl, hlog, hruns⟩⟩
  · refine ⟨signals, _, hwithin, .inr ⟨e.code, rfl, ?_, hbreaks⟩⟩
    show t'.log ++ [.dropped l.number] = _
    rw [hlog, List.append_assoc]

/-- Without a stream a plan is run on nothing. -/
theorem run_of_none (hline : c.line = none) (net : Carrier (StateM S) (Numbered L))
    (limits : Limits) (p : Exchanges α) (s : S) :
    ∃ a, p.run (single net limits) c s = ((a, c), s) := by
  induction p with
  | done a => exact ⟨a, rfl⟩
  | ask q next ih =>
      rw [run_ask, transact_none hline]
      exact ih _

/-- **The exchanges of a plan have all had their replies, or one has broken off and the stream has
been dropped.** -/
theorem run_tapped (hnet : net.Exact) (hline : c.line = some l) (limits : Limits)
    (p : Exchanges α) (t : Tap S) :
    ∃ a signals t', t'.log = t.log ++ signals
      ∧ (p.run (single net.tapped limits) c t = ((a, c), t')
          ∧ Answered limits l.number p signals a
        ∨ p.run (single net.tapped limits) c t = ((a, c.lost), t')
          ∧ Interrupted limits l.number p signals) := by
  induction p generalizing t with
  | done a => exact ⟨a, [], t, (List.append_nil _).symm, .inl ⟨rfl, .done a⟩⟩
  | ask q next ih =>
      rw [run_ask]
      obtain ⟨signals, t', hwithin, h | h⟩ := transact_tapped hnet hline (exchange limits q) t
      · obtain ⟨o, ho, hlog, hruns⟩ := h
        have hexchanged : Exchanged limits l.number q signals o :=
          ⟨hwithin, complete_of_runs hruns⟩
        rw [ho]
        obtain ⟨a, more, t'', hmore, h⟩ := ih o t'
        rw [hlog, List.append_assoc] at hmore
        refine ⟨a, signals ++ more, t'', hmore, ?_⟩
        rcases h with ⟨hrun, hanswered⟩ | ⟨hrun, hinterrupted⟩
        · exact .inl ⟨hrun, .ask hexchanged hanswered⟩
        · exact .inr ⟨hrun, .ask hexchanged hinterrupted⟩
      · obtain ⟨code, hcode, hlog, hbreaks⟩ := h
        rw [hcode]
        obtain ⟨a, ha⟩ := run_of_none (c := c.lost) rfl net.tapped limits
          (next (.error code)) t'
        exact ⟨a, _, t', hlog, .inr ⟨ha, .severed ⟨hwithin, not_refused_of_breaks hbreaks⟩⟩⟩

/-- A request starts with an exchange, and fails if that does. -/
theorem split_eq_ask (limit : UInt64) (r : Request) :
    ∃ q next, split limit r = .ask q next ∧ ∀ code, next (.error code) = .done (.error code) := by
  cases r with
  | read path size offset =>
      have hposition : ¬ offsetEnd ≤ offset.toNat + ([] : Bytes).length :=
        Nat.not_le.mpr offset.toNat_lt
      rw [split, readSplit, readOn]
      dsimp only
      rw [if_neg hposition]
      exact ⟨_, _, rfl, fun _ => rfl⟩
  | write path data offset =>
      rw [split, writeSplit_eq]
      exact ⟨_, _, rfl, fun _ => rfl⟩
  | _ => exact ⟨_, _, rfl, fun _ => rfl⟩

/-- Without a stream a request is refused, and nothing is done for it. -/
theorem run_split_of_none (hline : c.line = none) (net : Carrier (StateM S) (Numbered L))
    (r : Request) (s : S) :
    (split c.config.maxIo r).run (single net c.config.limits) c s =
      ((.error .notConnected, c), s) := by
  obtain ⟨q, next, hsplit, hfails⟩ := split_eq_ask c.config.maxIo r
  rw [hsplit, run_ask, transact_none hline]
  dsimp only
  rw [hfails]
  rfl

end Connection

/-! ## Errands -/

/-- What can be done with a connection. -/
inductive Errand where
  | connect
  | request (r : Request)
  | beat
  | stop

namespace Errand

/-- What comes of it. -/
abbrev Answer : Errand → Type
  | connect => Except ConnectionError Unit
  | request r => Outcome r.Answer
  | beat | stop => Bool

def run {m : Type → Type} [Monad m] (net : Carrier m L) (c : Connection L) :
    (e : Errand) → m (e.Answer × Connection L)
  | connect => c.connect net
  | request r => c.request net r
  | beat => c.beat net
  | stop => c.stop net

end Errand

/-- What an errand leads to, where the next stream would have the number `fresh`. -/
inductive Settles (c : Connection (Numbered L)) (fresh : Nat) :
    (e : Errand) → e.Answer → Connection (Numbered L) → List Signal → Prop where
  | tooLong {r : Request} :
    c.config.maxPath.toNat < (Utf8.encode r.path).length →
    Settles c fresh (.request r) (.error .nameTooLong) c []
  | cutOff {r : Request} :
    (Utf8.encode r.path).length ≤ c.config.maxPath.toNat → c.line = none →
    Settles c fresh (.request r) (.error .notConnected) c []
  /-- Every exchange has had its reply, and the stream stays. -/
  | answered {r : Request} {l : Numbered L} {signals : List Signal} {o : Outcome r.Answer} :
    (Utf8.encode r.path).length ≤ c.config.maxPath.toNat → c.line = some l →
    Answered c.config.limits l.number (split c.config.maxIo r) signals o →
    Settles c fresh (.request r) o c signals
  /-- An exchange has broken off, and the stream is gone. -/
  | interrupted {r : Request} {l : Numbered L} {signals : List Signal} {o : Outcome r.Answer} :
    (Utf8.encode r.path).length ≤ c.config.maxPath.toNat → c.line = some l →
    Interrupted c.config.limits l.number (split c.config.maxIo r) signals →
    Settles c fresh (.request r) o c.lost signals
  | unheard : c.line = none → Settles c fresh .beat false c []
  | beaten {l : Numbered L} {signals : List Signal} :
    c.line = some l → (∀ x ∈ signals, x.Within l.number) →
    Signal.allSent signals = ofCommand .heartbeat →
    Signal.allHeard signals = ofCommand .heartbeat → Settles c fresh .beat true c signals
  | unbeaten {l : Numbered L} {signals : List Signal} :
    c.line = some l → (∀ x ∈ signals, x.Within l.number) →
    Settles c fresh .beat false c.lost (signals ++ [.dropped l.number])
  | idle : c.line = none → Settles c fresh .stop true { c.lost with stopped := true } []
  | stopped {l : Numbered L} {signals : List Signal} {closed : Bool} :
    c.line = some l → (∀ x ∈ signals, x.Within l.number) → Signal.allHeard signals = [] →
    Settles c fresh .stop closed { c.lost with stopped := true }
      (signals ++ [.dropped l.number])
  | unopened {cause : ConnectionError} : Settles c fresh .connect (.error cause) c []
  /-- The handshake has failed, and only the new stream is gone. -/
  | rejected {cause : ConnectionError} {signals : List Signal} :
    (∀ x ∈ signals, x.Within fresh) →
    Settles c fresh .connect (.error cause) c (.dialled fresh :: (signals ++ [.dropped fresh]))
  | accepted {line : L} {signals : List Signal} :
    (∀ x ∈ signals, x.Within fresh) → Signal.allSent signals = ofKey c.peer.key →
    Signal.allHeard signals = ofCommand .accept →
    Settles c fresh .connect (.ok ()) (c.gained ⟨fresh, line⟩)
      (.dialled fresh :: (signals ++ c.line.toList.map fun old => .dropped old.number))

namespace Connection

variable {net : Carrier (StateM S) L} {l : Numbered L}

/-- The errand has been run, and what was noted of it fits what it has led to. -/
def Settled (c : Connection (Numbered L)) (e : Errand) (t : Tap S)
    (x : (e.Answer × Connection (Numbered L)) × Tap S) : Prop :=
  ∃ signals, x.2.log = t.log ++ signals ∧ Settles c t.log.length e x.1.1 x.1.2 signals

theorem settled_request (hnet : net.Exact) (c : Connection (Numbered L)) (r : Request)
    (t : Tap S) : c.Settled (.request r) t (c.request net.tapped r t) := by
  by_cases hlong : c.config.maxPath.toNat < (Utf8.encode r.path).length
  · rw [request_eq, if_pos hlong]
    exact ⟨[], (List.append_nil _).symm, .tooLong hlong⟩
  have hshort : (Utf8.encode r.path).length ≤ c.config.maxPath.toNat := Nat.not_lt.mp hlong
  rw [request_of_short _ hshort]
  cases hline : c.line with
  | none =>
      rw [run_split_of_none hline]
      exact ⟨[], (List.append_nil _).symm, .cutOff hshort hline⟩
  | some l =>
      obtain ⟨a, signals, t', hlog, ⟨hrun, h⟩ | ⟨hrun, h⟩⟩ :=
        run_tapped hnet hline c.config.limits (split c.config.maxIo r) t
      · rw [hrun]
        exact ⟨signals, hlog, .answered hshort hline h⟩
      · rw [hrun]
        exact ⟨signals, hlog, .interrupted hshort hline h⟩

theorem settled_beat (hnet : net.Exact) (c : Connection (Numbered L)) (t : Tap S) :
    c.Settled .beat t (c.beat net.tapped t) := by
  rw [beat, stateM_bind_apply]
  cases hline : c.line with
  | none =>
      rw [transact_none hline]
      exact ⟨[], (List.append_nil _).symm, .unheard hline⟩
  | some l =>
      obtain ⟨signals, t', hwithin, ⟨o, ho, hlog, hruns⟩ | ⟨code, hcode, hlog, -⟩⟩ :=
        transact_tapped hnet hline (do return .ok (← heartbeat)) t
      · obtain ⟨u, hbeat, rfl⟩ := runs_map.mp hruns
        obtain ⟨hsent, hheard⟩ := beat_of_runs hbeat
        rw [ho]
        exact ⟨signals, hlog, .beaten hline hwithin hsent hheard⟩
      · rw [hcode]
        exact ⟨_, hlog, .unbeaten hline hwithin⟩

theorem settled_stop (c : Connection (Numbered L)) (t : Tap S) :
    c.Settled .stop t (c.stop net.tapped t) := by
  rw [stop]
  cases hline : c.line with
  | none => exact ⟨[], (List.append_nil _).symm, .idle hline⟩
  | some l =>
      dsimp only
      rw [stateM_bind_apply, Carrier.send_tapped]
      rcases net.send l.line (ofCommand .stop) t.state with ⟨e | _, s⟩
      · refine ⟨[.failed l.number] ++ [.dropped l.number], ?_, .stopped hline ?_ rfl⟩
        · exact List.append_assoc _ _ _
        · exact List.forall_mem_singleton.mpr (Signal.within_failed _)
      · refine ⟨[.sent l.number (ofCommand .stop), .shut l.number] ++ [.dropped l.number], ?_,
          .stopped hline ?_ rfl⟩
        · show ((t.log ++ _) ++ _) ++ _ = _
          rw [List.append_assoc, List.append_assoc]
          rfl
        · intro x hx
          rcases List.mem_cons.mp hx with rfl | hx
          · exact Signal.within_sent _ _
          · obtain rfl := List.mem_singleton.mp hx
            exact Signal.within_shut _

theorem settled_connect (hnet : net.Exact) (c : Connection (Numbered L)) (t : Tap S) :
    c.Settled .connect t (c.connect net.tapped t) := by
  rw [connect]
  split
  · exact ⟨[], (List.append_nil _).symm, .unopened⟩
  rw [stateM_bind_apply, Carrier.dial_tapped]
  rcases net.dial c.peer.address t.state with ⟨e | line, s⟩
  · cases e with
    | timeout => exact ⟨[], (List.append_nil _).symm, .unopened⟩
    | refused cause => exact ⟨[], (List.append_nil _).symm, .unopened⟩
  dsimp only
  rw [stateM_bind_apply]
  obtain ⟨signals, hlog, hwithin, hd⟩ := Carrier.converse_tapped ⟨t.log.length, line⟩ hnet
    (shakeHands c.peer.key) (t.note s (.dialled t.log.length))
  generalize net.tapped.converse _ _ _ = x at hlog hd ⊢
  obtain ⟨result, t'⟩ := x
  change t'.log = (t.log ++ [.dialled t.log.length]) ++ signals at hlog
  rw [List.append_assoc] at hlog
  rcases hd with ⟨outcome, rfl, hruns⟩ | ⟨e, rfl, -⟩
  · cases outcome with
    | accepted =>
        obtain ⟨hsent, hheard⟩ := accepted_of_runs hruns
        have haccepted : Settles c t.log.length .connect (.ok ())
            (c.gained ⟨t.log.length, line⟩) (.dialled t.log.length ::
              (signals ++ c.line.toList.map fun old => .dropped old.number)) :=
          .accepted hwithin hsent hheard
        cases hold : c.line with
        | none =>
            rw [hold, Option.toList_none, List.map_nil, List.append_nil] at haccepted
            exact ⟨_, hlog, haccepted⟩
        | some old =>
            rw [hold] at haccepted
            refine ⟨_, ?_, haccepted⟩
            show t'.log ++ [.dropped old.number] = _
            rw [hlog, List.append_assoc, List.append_assoc]
            rfl
    | rejected reason =>
        refine ⟨.dialled t.log.length :: ((signals ++ [.shut t.log.length]) ++ [.dropped _]), ?_,
          .rejected ?_⟩
        · show (t'.log ++ [.shut _]) ++ [.dropped _] = _
          rw [hlog, List.append_assoc t.log, List.append_assoc t.log]
          rfl
        · intro x hx
          rcases List.mem_append.mp hx with hx | hx
          · exact hwithin x hx
          · obtain rfl := List.mem_singleton.mp hx
            exact Signal.within_shut _
  · refine ⟨.dialled t.log.length :: (signals ++ [.dropped _]), ?_, .rejected hwithin⟩
    show t'.log ++ [.dropped _] = _
    rw [hlog, List.append_assoc, List.append_assoc]
    rfl

/-- **Whatever is done with a connection, and whatever comes of it, leads to one of these ends.** -/
theorem settled_run (hnet : net.Exact) (c : Connection (Numbered L)) (e : Errand) (t : Tap S) :
    c.Settled e t (e.run net.tapped c t) := by
  cases e with
  | connect => exact settled_connect hnet c t
  | request r => exact settled_request hnet c r t
  | beat => exact settled_beat hnet c t
  | stop => exact settled_stop c t

/-! ## Listening changes nothing -/

/-- The connection as it is where nobody listens. -/
def plain (c : Connection (Numbered L)) : Connection L :=
  { peer := c.peer, config := c.config, line := c.line.map (·.line)
    connected := c.connected, stopped := c.stopped }

/-- What something comes to where nobody listens. -/
def unheeded {α : Type} (x : (α × Connection (Numbered L)) × Tap S) : (α × Connection L) × S :=
  ((x.1.1, x.1.2.plain), x.2.state)

variable {c : Connection (Numbered L)}

theorem transact_plain {α : Type} (net : Carrier (StateM S) L) (c : Connection (Numbered L))
    (d : Dialogue Unit (Outcome α)) (t : Tap S) :
    c.plain.transact net d t.state = unheeded (c.transact net.tapped d t) := by
  cases hline : c.line with
  | none =>
      have hplain : c.plain.line = none := by rw [plain, hline]; rfl
      rw [transact_none hline, transact_none hplain]
      rfl
  | some l =>
      have hplain : c.plain.line = some l.line := by rw [plain, hline]; rfl
      rw [transact_eq hline, transact_eq hplain, Carrier.converse_tapped_state]
      rcases net.tapped.converse l d t with ⟨_ | _, t'⟩ <;> rfl

theorem run_plain {α : Type} (net : Carrier (StateM S) L) (limits : Limits) (p : Exchanges α)
    (c : Connection (Numbered L)) (t : Tap S) :
    p.run (single net limits) c.plain t.state =
      unheeded (p.run (single net.tapped limits) c t) := by
  induction p generalizing c t with
  | done a => rfl
  | ask q next ih =>
      rw [run_ask, run_ask, transact_plain]
      exact ih _ _ _

theorem connect_plain (net : Carrier (StateM S) L) (c : Connection (Numbered L)) (t : Tap S) :
    c.plain.connect net t.state = unheeded (c.connect net.tapped t) := by
  rw [connect, connect]
  by_cases hstopped : c.stopped
  · rw [if_pos hstopped, if_pos (show c.plain.stopped = true from hstopped)]
    rfl
  rw [if_neg hstopped, if_neg (show ¬ c.plain.stopped = true from hstopped), stateM_bind_apply,
    stateM_bind_apply, Carrier.dial_tapped, show c.plain.peer = c.peer from rfl]
  rcases net.dial c.peer.address t.state with ⟨e | line, s⟩
  · cases e <;> rfl
  dsimp only
  rw [stateM_bind_apply, stateM_bind_apply]
  have hstate := net.converse_tapped_state ⟨t.log.length, line⟩ (shakeHands c.peer.key)
    (t.note s (.dialled t.log.length))
  change net.converse line _ s = _ at hstate
  rw [hstate]
  rcases net.tapped.converse _ _ _ with ⟨_ | outcome, t'⟩
  · rfl
  cases outcome with
  | rejected reason => rfl
  | accepted =>
      cases hold : c.line with
      | none =>
          have hplain : c.plain.line = none := by rw [plain, hold]; rfl
          dsimp only
          rw [hplain]
          rfl
      | some old =>
          have hplain : c.plain.line = some old.line := by rw [plain, hold]; rfl
          dsimp only
          rw [hplain]
          rfl

theorem stop_plain (net : Carrier (StateM S) L) (c : Connection (Numbered L)) (t : Tap S) :
    c.plain.stop net t.state = unheeded (c.stop net.tapped t) := by
  rw [stop, stop]
  cases hline : c.line with
  | none =>
      have hplain : c.plain.line = none := by rw [plain, hline]; rfl
      rw [hplain]
      rfl
  | some l =>
      have hplain : c.plain.line = some l.line := by rw [plain, hline]; rfl
      rw [hplain]
      dsimp only
      rw [stateM_bind_apply, stateM_bind_apply, Carrier.send_tapped]
      rcases net.send l.line (ofCommand .stop) t.state with ⟨_ | _, s⟩
      · rfl
      · rfl

/-- **Listening to an errand changes nothing about it.** -/
theorem run_errand_plain (net : Carrier (StateM S) L) (c : Connection (Numbered L)) (e : Errand)
    (t : Tap S) : e.run net c.plain t.state = unheeded (e.run net.tapped c t) := by
  cases e with
  | connect => exact connect_plain net c t
  | stop => exact stop_plain net c t
  | beat =>
      show c.plain.beat net t.state = unheeded (c.beat net.tapped t)
      rw [beat, beat, stateM_bind_apply, stateM_bind_apply, transact_plain]
      rfl
  | request r =>
      show c.plain.request net r t.state = unheeded (c.request net.tapped r t)
      rw [request_eq, request_eq, show c.plain.config = c.config from rfl]
      split
      · rfl
      · exact run_plain net _ _ c t

end Connection
end UnionFS.Client
