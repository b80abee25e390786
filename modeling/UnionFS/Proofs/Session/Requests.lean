import UnionFS.Proofs.Export.Attend
import UnionFS.Session.Basic

/-!
# Requests as a session hears them

A session takes one command after another from its input (`serveAll_unknown`, `serveAll_stop`,
`serveAll_heartbeat`, `serveAll_command`).  Between two requests it rests: it waits for a command,
and nothing of one is there (`Resting`).  A request that is answered at once leads from rest to
rest, with its whole response sent on the way (`Resting.arrive_request`).
-/

namespace UnionFS

open Dialogue Wire Client

namespace Session

/-! ## Commands -/

/-- What a session does when a dialogue has come so far: what the dialogue ends in may give it an
export to serve, and where it has not ended the session waits. -/
def takeUp {α : Type} (s : Session) (waits : Dialogue Tree α → Phase) (opens : α → Option Export)
    (now : Nat) (p : Progress Tree α) : Reaction :=
  match p.pending.outcome? with
  | some (.ok a) =>
    match opens a with
    | some e => (s.serveAll e now p.state p.unread).after p.sent
    | none => ⟨s.finish now, p.state, p.sent⟩
  | some (.error _) => ⟨s.finish now, p.state, p.sent⟩
  | none => ⟨s.await now (waits p.pending) p.unread s.gate.config.ioTimeout, p.state, p.sent⟩

/-- After a request the session goes on as before it. -/
abbrev proceed (s : Session) (e : Export) : Nat → Progress Tree Unit → Reaction :=
  s.takeUp (.busy e) fun _ => some e

variable {s : Session} {a b : UInt8} {rest : Bytes} {e : Export} {now : Nat} {t : Tree}

/-- The command that two bytes stand for. -/
def command? (a b : UInt8) : Option Command :=
  Command.ofWord? (UInt16.ofNat (Bytes.toNat [a, b]))

theorem serveAll_unknown (h : command? a b = none) :
    s.serveAll e now t (a :: b :: rest) = s.serveAll e now t rest := by
  rw [command?] at h
  rw [serveAll, h]

theorem serveAll_stop (h : command? a b = some .stop) :
    s.serveAll e now t (a :: b :: rest) = ⟨s.finish now, t, []⟩ := by
  rw [command?] at h
  rw [serveAll, h]

theorem serveAll_heartbeat (h : command? a b = some .heartbeat) :
    s.serveAll e now t (a :: b :: rest) =
      ({ s with heartbeat := s.heartbeat.beat }.serveAll e now t rest).after
        (Wire.ofCommand .heartbeat) := by
  rw [command?] at h
  rw [serveAll, h]

theorem serveAll_command {command : Command} (h : command? a b = some command)
    (hstop : command ≠ .stop) (hbeat : command ≠ .heartbeat) :
    s.serveAll e now t (a :: b :: rest) = s.proceed e now ((e.serve command).feed rest t) := by
  rw [command?] at h
  rw [serveAll, h]
  cases command with
  | stop => exact absurd rfl hstop
  | heartbeat => exact absurd rfl hbeat
  | _ =>
      rw [proceed, takeUp]
      dsimp only
      generalize (e.serve _).feed rest t = p
      rcases p.pending.outcome? with _ | (error | a) <;> rfl

/-- A request is served on what follows its command. -/
theorem serveAll_request (s : Session) (e : Export) (now : Nat) (t : Tree) (r : Request)
    (rest : Bytes) :
    s.serveAll e now t (ofCommand r.command ++ rest) =
      s.proceed e now ((e.serve r.command).feed rest t) := by
  obtain ⟨a, b, hbytes⟩ : ∃ a b, ofCommand r.command = [a, b] := ⟨_, _, rfl⟩
  have hcommand : command? a b = some r.command := by
    rw [command?, ← hbytes, word_ofCommand, Command.ofWord?_word]
  have hstop : r.command ≠ .stop := by cases r <;> nofun
  have hbeat : r.command ≠ .heartbeat := by cases r <;> nofun
  rw [hbytes, List.cons_append, List.cons_append, List.nil_append,
    serveAll_command hcommand hstop hbeat]

/-! ## Rest -/

/-- The session waits for a command, and nothing of one is there. -/
structure Resting (s : Session) (e : Export) : Prop where
  phase : s.phase = .idle e
  unread : s.unread = []
  listening : s.ended = false

/-- A session that can still hear something waits. -/
theorem await_listening (h : s.ended = false) (now : Nat) (phase : Phase) (unread : Bytes)
    (timeout : UInt64) :
    s.await now phase unread timeout =
      { s with phase, unread, deadline := now + timeout.toNat } := by
  rw [await, if_neg (by rw [h]; decide)]

/-- With nothing more to serve, a session comes to rest. -/
theorem resting_serveAll_nil (h : s.ended = false) (e : Export) (now : Nat) (t : Tree) :
    ∃ s', s'.Resting e ∧ s.serveAll e now t [] = ⟨s', t, []⟩ := by
  refine ⟨s.await now (.idle e) [] s.gate.config.readTimeout, ?_, by rw [serveAll]⟩
  rw [await_listening h]
  exact ⟨rfl, rfl, h⟩

theorem Resting.arrive (h : s.Resting e) (now : Nat) (t : Tree) {bytes : Bytes}
    (hb : bytes ≠ []) : s.arrive now t bytes = s.serveAll e now t bytes := by
  rw [Session.arrive, if_neg (by simpa using hb), resume, h.phase, h.unread]
  rfl

/-- What a session at rest does with the start of a request. -/
theorem Resting.arrive_command (h : s.Resting e) (now : Nat) (t : Tree) (r : Request)
    (rest : Bytes) :
    s.arrive now t (ofCommand r.command ++ rest) =
      s.proceed e now ((e.serve r.command).feed rest t) := by
  rw [h.arrive now t (by simp [ofCommand, Bytes.ofNat]), serveAll_request]

/-- **A request that is answered at once is answered in full**, and the session rests again. -/
theorem Resting.arrive_request (h : s.Resting e) (now : Nat) (t : Tree) {r : Request}
    (hp : (Utf8.encode r.path).length ≤ e.maxPath.toNat)
    (hr : ∀ path data offset, r ≠ .write path data offset) :
    ∃ s', s'.Resting e ∧ s.arrive now t (opening r) = ⟨s', t, e.response t r⟩ := by
  obtain ⟨s', hs', hrest⟩ := resting_serveAll_nil h.listening e now t
  have hfeed := Export.feed_attend_of_ne_write [] t hp hr
  rw [Export.feed_attend, List.append_nil] at hfeed
  refine ⟨s', hs', ?_⟩
  rw [Request.opening_eq, h.arrive_command, hfeed, proceed, takeUp]
  dsimp only [outcome?]
  rw [hrest, Reaction.after, List.append_nil]

end Session
end UnionFS
